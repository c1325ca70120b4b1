import Lisplet.Proofs.Numeral.Written
import Lisplet.Value.Display

/-!
# Displayed numbers

The console shows a whole double by its digits alone. Like the text of any other double this is a
numeral, and the double that it denotes is the one that is shown, but for the sign of a zero, which
is lost.
-/

namespace Lisplet

namespace Binary64

/-- A double that has lost its sign if it is a zero. -/
def unsignedZero (x : Binary64) : Binary64 := if x.isZero then zero false else x

/-- A double that is shown by its digits has a whole number of ones, the number that is shown. -/
theorem exists_ones_of_toInt? {x : Binary64} {n : Int} (h : x.toInt? = some n) :
    ∃ negative ones hunits, x = .finite negative (ones * unitsPerOne) hunits ∧
      n = signed negative ones := by
  cases x with
  | nan => cases h
  | infinite negative => cases h
  | finite negative units hunits =>
    rw [toInt?] at h
    by_cases hwhole : units % unitsPerOne = 0
    · rw [if_pos hwhole] at h
      have hones : units / unitsPerOne * unitsPerOne = units :=
        Nat.div_mul_cancel (Nat.dvd_of_mod_eq_zero hwhole)
      exact ⟨negative, units / unitsPerOne, hones.symm ▸ hunits, by simp only [hones],
        (Option.some.inj h).symm⟩
    · rw [if_neg hwhole] at h
      cases h

/-- The digits of a whole number of ones denote it. -/
theorem ofDecimal_ones (negative : Bool) {ones : ℕ} (h : Representable (ones * unitsPerOne)) :
    ofDecimal negative ones 0 = .finite negative (ones * unitsPerOne) h := by
  have hpower : Nat.pow 10 (0 : Int).toNat = 1 := rfl
  have hback : Nat.pow 10 (-(0 : Int)).toNat = 1 := rfl
  rw [ofDecimal_eq_nearest, hpower, hback, Nat.mul_one]
  have hnearest := nearest_of_representable negative h Nat.one_pos
  rwa [Nat.mul_one] at hnearest

/-- A double that is no whole number is no zero. -/
theorem unsignedZero_of_toInt?_eq_none {x : Binary64} (h : x.toInt? = none) :
    x.unsignedZero = x := by
  have hzero : x.isZero = false := by
    by_contra hzero
    rw [Bool.not_eq_false] at hzero
    cases x with
    | nan => cases hzero
    | infinite negative => cases hzero
    | finite negative units hunits =>
      obtain rfl : units = 0 := by simpa [isZero] using hzero
      simp [toInt?] at h
  rw [unsignedZero, hzero]
  rfl

/-- A whole number of ones keeps its sign unless there are none. -/
theorem unsignedZero_ones (negative : Bool) {ones : ℕ} (h : Representable (ones * unitsPerOne)) :
    (finite negative (ones * unitsPerOne) h).unsignedZero =
      .finite (negative && ones != 0) (ones * unitsPerOne) h := by
  have hunit : unitsPerOne ≠ 0 := by decide +kernel
  by_cases hones : ones = 0
  · subst hones
    simp [unsignedZero, isZero, zero]
  · simp [unsignedZero, isZero, hones, hunit]

/-- The sign of a zero does not count in comparisons. -/
theorem equal_unsignedZero {x : Binary64} (h : x.isFinite = true) :
    (Number.real x.unsignedZero).equal (.real x) = true := by
  cases x with
  | nan => cases h
  | infinite negative => cases h
  | finite negative units hunits =>
    by_cases hzero : units = 0
    · subst hzero
      simp [unsignedZero, isZero, zero, Number.equal, Number.extent?, signed]
    · simp [unsignedZero, isZero, hzero, Number.equal, Number.extent?]

end Binary64

namespace Numeral

/-- A whole number is shown by the digits of its magnitude, behind a minus sign if it is less than
zero. -/
theorem toList_repr_signed (negative : Bool) (ones : ℕ) :
    (Binary64.signed negative ones).repr.toList =
      (if negative && ones != 0 then ['-'] else []) ++ Nat.toDigits 10 ones := by
  cases negative with
  | false => exact Nat.toList_repr
  | true =>
    cases ones with
    | zero => rfl
    | succ ones =>
      change ("-" ++ (ones + 1).repr).toList = _
      simp

/-- What the console shows for a finite double is a numeral that denotes it, but for the sign of a
zero. -/
theorem exists_spelling_display {x : Binary64} (h : x.isFinite = true) :
    ∃ p : Spelling, p.text = (Number.real x).display.toList ∧
      p.numeral.value = x.unsignedZero := by
  cases hint : x.toInt? with
  | none =>
    obtain ⟨p, htext, hvalue⟩ := exists_spelling_ofBinary64 h
    refine ⟨p, ?_, ?_⟩
    · rw [Number.display, hint, Binary64.toText, String.toList_ofList, htext]
    · rw [hvalue, Binary64.unsignedZero_of_toInt?_eq_none hint]
  | some n =>
    obtain ⟨negative, ones, hunits, rfl, rfl⟩ := Binary64.exists_ones_of_toInt? hint
    refine ⟨⟨if negative && ones != 0 then ['-'] else [], Nat.toDigits 10 ones, [], [], ?_,
      isDigits_toDigits ones, Or.inl rfl, Or.inl rfl⟩, ?_, ?_⟩
    · split
      · exact Or.inr rfl
      · exact Or.inl rfl
    · rw [Number.display, hint, toList_repr_signed, Spelling.text, List.append_nil,
        List.append_nil]
    · change Binary64.ofDecimal _ (Nat.ofDigitChars 10 (Nat.toDigits 10 ones ++ []) 0) 0 = _
      rw [List.append_nil, Nat.ofDigitChars_ten_toDigits, Binary64.ofDecimal_ones _ hunits,
        Binary64.unsignedZero_ones]
      cases negative && ones != 0 <;> rfl

end Numeral

end Lisplet
