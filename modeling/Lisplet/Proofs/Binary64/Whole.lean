import Lisplet.Number
import Lisplet.Proofs.Binary64.Decimal

/-!
# Whole numbers as doubles

A whole number becomes the double nearest to it. It is too large for that when it is as near to the
limit as to the greatest double, or nearer, since the rounding of a half then goes up. A whole number
that is not zero does not become a zero.
-/

namespace Lisplet

/-- A quotient below an even number is rounded up to it from half a unit below it on. -/
theorem even_le_roundHalfEven_iff {num half bound : ℕ} (heven : bound % 2 = 0)
    (hbelow : num < bound * (2 * half)) :
    bound ≤ roundHalfEven num (2 * half) ↔ bound * (2 * half) ≤ num + half := by
  have hfloor : num / (2 * half) < bound := Nat.div_lt_of_lt_mul (Nat.mul_comm _ _ ▸ hbelow)
  have hnum : num / (2 * half) * (2 * half) + num % (2 * half) = num := Nat.div_add_mod' _ _
  have hrest : num % (2 * half) < 2 * half := by
    apply Nat.mod_lt
    exact Nat.pos_of_mul_pos_left (Nat.zero_lt_of_lt hbelow)
  by_cases hlast : num / (2 * half) + 1 = bound
  · -- The floor is odd, so that half a unit more suffices.
    have hunits : bound * (2 * half) = num / (2 * half) * (2 * half) + 2 * half := by
      rw [← hlast, Nat.succ_mul]
    rw [roundHalfEven]
    split <;> omega
  · -- One unit more does not suffice.
    have hunits : (num / (2 * half) + 2) * (2 * half) ≤ bound * (2 * half) :=
      Nat.mul_le_mul_right _ (by omega)
    rw [Nat.add_mul] at hunits
    have hround := roundHalfEven_eq num (2 * half)
    omega

namespace Binary64

/-- A whole number is not rounded above a power of two that it is less than. -/
theorem roundToPlace_le_pow {num k : ℕ} (h : num < Nat.pow 2 k) :
    roundToPlace num 1 ≤ Nat.pow 2 k := by
  have hplace : lastPlace num ≤ k := by
    by_cases hzero : num = 0
    · subst hzero
      exact Nat.zero_le k
    · have hlog : num.log2 < k := (Nat.log2_lt hzero).mpr h
      unfold lastPlace
      omega
  have hsplit : Nat.pow 2 k = Nat.pow 2 (k - lastPlace num) * Nat.pow 2 (lastPlace num) := by
    simp only [Nat.pow_eq, ← Nat.pow_add]
    congr 1
    omega
  rw [roundToPlace, Nat.div_one, Nat.one_mul, hsplit]
  apply Nat.mul_le_mul_right
  have hfloor : num / Nat.pow 2 (lastPlace num) < Nat.pow 2 (k - lastPlace num) := by
    apply Nat.div_lt_of_lt_mul
    rw [Nat.mul_comm, ← hsplit]
    exact h
  obtain heq | heq := roundHalfEven_eq num (Nat.pow 2 (lastPlace num)) <;> omega

/-- A whole number is rounded up to a power of two when at most half a last place is missing. -/
theorem pow_le_roundToPlace_iff {num k : ℕ} :
    Nat.pow 2 (k + 54) ≤ roundToPlace num 1 ↔ Nat.pow 2 (k + 54) ≤ num + Nat.pow 2 k := by
  have hpos : 0 < Nat.pow 2 k := Nat.two_pow_pos k
  have hbound : Nat.pow 2 (k + 54) = Nat.pow 2 53 * (2 * Nat.pow 2 k) := by
    simp only [Nat.pow_eq, ← Nat.pow_succ', ← Nat.pow_add]
    congr 1
    omega
  have hhalf : Nat.pow 2 (k + 54) = 2 * Nat.pow 2 (k + 53) := Nat.pow_succ'
  by_cases hlarge : Nat.pow 2 (k + 54) ≤ num
  · exact iff_of_true (pow_le_roundToPlace hlarge) (Nat.le_add_right_of_le hlarge)
  rw [Nat.not_le] at hlarge
  by_cases hsmall : num < Nat.pow 2 (k + 53)
  · have hround := roundToPlace_le_pow hsmall
    have hunit : Nat.pow 2 k < Nat.pow 2 (k + 53) := Nat.pow_lt_pow_right (by decide) (by omega)
    omega
  · -- The last place counts twice what may be missing.
    have hplace : lastPlace num = k + 1 := by
      have hlog : num.log2 = k + 53 :=
        (Nat.log2_eq_iff (by omega)).mpr ⟨Nat.not_lt.mp hsmall, hlarge⟩
      rw [lastPlace, hlog]
      omega
    have hunit : Nat.pow 2 (k + 1) = 2 * Nat.pow 2 k := Nat.pow_succ'
    rw [hbound] at hlarge
    rw [roundToPlace, Nat.div_one, Nat.one_mul, hplace, hunit, hbound,
      Nat.mul_le_mul_right_iff (by omega), even_le_roundHalfEven_iff (by decide) hlarge]

/-- Whether a whole number is half a last place below the limit, or beyond. -/
def TooLarge (n : Int) : Prop := Nat.pow 2 1024 ≤ n.natAbs + Nat.pow 2 970

instance (n : Int) : Decidable (TooLarge n) := inferInstanceAs (Decidable (_ ≤ _))

/-- Zero is not too large. -/
theorem not_tooLarge_zero : ¬ TooLarge 0 := by decide +kernel

/-- A whole number becomes a double unless it is too large. -/
theorem ofInt?_eq_none_iff {n : Int} : ofInt? n = none ↔ TooLarge n := by
  have hround : ofInt? n = none ↔ limit ≤ roundToPlace (n.natAbs * unitsPerOne) 1 := by
    rw [ofInt?, ofInt, nearest]
    split
    · next hbelow => simp [notInfinite?, hbelow]
    · next hlarge => simpa [notInfinite?] using hlarge
  have hone : 0 < unitsPerOne := by decide +kernel
  obtain ⟨top, htop, hlimit⟩ : ∃ top, top = Nat.pow 2 1024 ∧ limit = top * unitsPerOne :=
    ⟨_, rfl, by decide +kernel⟩
  obtain ⟨gap, bits, hgap, hunits, hpower⟩ : ∃ gap bits, gap = 970 ∧
      unitsPerOne = Nat.pow 2 bits ∧ limit = Nat.pow 2 (gap + bits + 54) :=
    ⟨970, 1074, rfl, by decide +kernel, by decide +kernel⟩
  have hsplit : Nat.pow 2 (gap + bits) = Nat.pow 2 gap * unitsPerOne := by
    rw [hunits]
    exact Nat.pow_add 2 gap bits
  rw [TooLarge, ← hgap, ← htop, hround, hpower, pow_le_roundToPlace_iff, ← hpower, hlimit, hsplit,
    ← Nat.add_mul, Nat.mul_le_mul_right_iff hone]

/-- A whole number is rounded to nothing only if it is zero. -/
theorem roundToPlace_units_eq_zero_iff {n : ℕ} :
    roundToPlace (n * unitsPerOne) 1 = 0 ↔ n = 0 := by
  by_cases hn : n = 0
  · rw [hn, Nat.zero_mul]
    exact iff_of_true (roundToPlace_eq_zero Nat.one_pos) rfl
  · have hunits : unitsPerOne ≠ 0 := by decide +kernel
    have hleading := pow_log2_le_roundToPlace (Nat.mul_ne_zero hn hunits)
    have hpos : 0 < Nat.pow 2 (n * unitsPerOne).log2 := Nat.two_pow_pos _
    exact iff_of_false (by omega) hn

/-- A whole number becomes a zero only if it is one. -/
theorem isZero_of_ofInt? {n : Int} {x : Binary64} (h : ofInt? n = some x) :
    x.isZero = (n == 0) := by
  rw [ofInt?, ofInt, nearest] at h
  split at h
  · cases h
    change (roundToPlace (n.natAbs * unitsPerOne) 1 == 0) = (n == 0)
    rw [Bool.eq_iff_iff, beq_iff_eq, beq_iff_eq, roundToPlace_units_eq_zero_iff,
      Int.natAbs_eq_zero]
  · cases h

end Binary64

namespace Number

/-- A number becomes a double unless it is a whole number that is too large. -/
theorem toBinary64?_eq_none_iff {n : Number} :
    n.toBinary64? = none ↔ ∃ m, n = .whole m ∧ Binary64.TooLarge m := by
  cases n with
  | real x => simp [toBinary64?]
  | whole n => simp [toBinary64?, Binary64.ofInt?_eq_none_iff]

/-- A number becomes a zero only if it is one. -/
theorem isZero_of_toBinary64? {n : Number} {x : Binary64} (h : n.toBinary64? = some x) :
    x.isZero = n.isZero := by
  cases n with
  | real y =>
    cases h
    rfl
  | whole n => exact Binary64.isZero_of_ofInt? h

/-- A zero becomes a double. -/
theorem toBinary64?_ne_none_of_isZero {n : Number} (h : n.isZero = true) :
    n.toBinary64? ≠ none := by
  rw [Ne, toBinary64?_eq_none_iff]
  rintro ⟨m, rfl, hlarge⟩
  obtain rfl : m = 0 := by simpa [isZero] using h
  exact Binary64.not_tooLarge_zero hlarge

end Number

end Lisplet
