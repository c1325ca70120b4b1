import Lisplet.Binary64.Shortest
import Lisplet.Proofs.Binary64.Decimal

/-!
# Shortest decimals read back

The decimal that a search for the fewest digits comes to denotes the double that it was searched
for. A decimal that is found has been tried, and the exact expansion, which stands in when none is
found, needs no trial; zeros behind the digits can be dropped from either.
-/

namespace Lisplet.Binary64

/-- A decimal that was tried denotes the double it was tried for. -/
theorem ofDecimal_of_readsBack {units digits : ℕ} {exponent : Int} (h : Representable units)
    (hreads : readsBack units digits exponent = true) :
    ofDecimal false digits exponent = .finite false units h := by
  unfold readsBack at hreads
  split at hreads
  · next u hu heq =>
    obtain rfl : u = units := by simpa using hreads
    exact heq
  · cases hreads

/-- A candidate denotes the double it was searched for. -/
theorem ofDecimal_of_candidate? {units count digits : ℕ} {exponent : Int}
    (h : Representable units) (hfound : candidate? units count = some (digits, exponent)) :
    ofDecimal false digits exponent = .finite false units h := by
  simp only [candidate?, Option.map_eq_some_iff] at hfound
  obtain ⟨n, hn, heq⟩ := hfound
  cases heq
  have hreads : readsBack units digits (decimalPoint units - count) = true := by
    simpa using List.find?_some hn
  exact ofDecimal_of_readsBack h hreads

/-- Units that are a power of one half have a decimal expansion with as many places. -/
theorem ofDecimal_expansion {units places : ℕ} (h : Representable units)
    (hunits : unitsPerOne = Nat.pow 2 places) :
    ofDecimal false (units * Nat.pow 5 places) (-places) = .finite false units h := by
  have hpower : 0 < Nat.pow 10 places := Nat.pow_pos (by decide)
  have hten : Nat.pow 5 places * Nat.pow 2 places = Nat.pow 10 places :=
    (Nat.mul_pow 5 2 places).symm
  have hone : Nat.pow 10 0 = 1 := rfl
  have hzero : (-(places : Int)).toNat = 0 := by omega
  have hback : (-(-(places : Int))).toNat = places := by omega
  rw [ofDecimal_eq_nearest, hunits, hzero, hback, hone, Nat.mul_one, Nat.mul_assoc, hten,
    nearest_of_representable false h hpower]

/-- The exact expansion of a magnitude denotes it. -/
theorem ofDecimal_exactDigits {units : ℕ} (h : Representable units) :
    ofDecimal false (exactDigits units) (-1074) = .finite false units h := by
  obtain ⟨places, hplaces, hunits⟩ : ∃ places : ℕ, places = 1074 ∧
      unitsPerOne = Nat.pow 2 places := ⟨1074, rfl, by decide +kernel⟩
  have hexponent : (-1074 : Int) = -(places : Int) := by omega
  unfold exactDigits
  rw [← hplaces, hexponent]
  exact ofDecimal_expansion h hunits

/-- Dropping the zeros behind the digits of a decimal does not change what it denotes. -/
theorem ofDecimal_dropZeros (negative : Bool) (digits : ℕ) (exponent : Int) :
    ofDecimal negative (dropZeros digits exponent).1 (dropZeros digits exponent).2 =
      ofDecimal negative digits exponent := by
  fun_induction dropZeros digits exponent with
  | case1 digits exponent h ih =>
    have hten : Nat.pow 10 1 = 10 := rfl
    have hzero := ofDecimal_mul_pow negative (digits / 10) 1 (exponent + 1)
    rw [hten, Nat.div_mul_cancel (Nat.dvd_of_mod_eq_zero h.2)] at hzero
    rw [ih, ← hzero]
    congr 1
    omega
  | case2 digits exponent h => rfl

/-- The shortest decimal of a magnitude denotes it. -/
theorem ofDecimal_shortest {units : ℕ} (h : Representable units) :
    ofDecimal false (shortest units).1 (shortest units).2 = .finite false units h := by
  unfold shortest
  dsimp only
  rw [ofDecimal_dropZeros]
  cases hfound : (List.range' 1 mostDigits).findSome? (candidate? units) with
  | none => exact ofDecimal_exactDigits h
  | some found =>
    obtain ⟨count, -, hcandidate⟩ := List.exists_of_findSome?_eq_some hfound
    exact ofDecimal_of_candidate? h hcandidate

end Lisplet.Binary64
