import Lisplet.Proofs.Binary64.Shortest
import Lisplet.Proofs.Numeral.Denoted

/-!
# Written numbers

The text of a finite double is a numeral, and the double that the numeral denotes is the one that
was written. Setting out digits around their point or with an exponent makes a numeral of the same
value whatever the layout, so the reading of a written number rests on its digits alone.
-/

namespace Lisplet.Numeral

/-- Zeros in front of digits count for nothing. -/
theorem ofDigitChars_zeros_append (count : ℕ) (digits : List Char) :
    Nat.ofDigitChars 10 (List.replicate count '0' ++ digits) 0 = Nat.ofDigitChars 10 digits 0 := by
  rw [Nat.ofDigitChars_append, Nat.ofDigitChars_replicate_zero, Nat.mul_zero]

/-- Zeros behind digits multiply them by a power of ten. -/
theorem ofDigitChars_append_zeros (digits : List Char) (count : ℕ) :
    Nat.ofDigitChars 10 (digits ++ List.replicate count '0') 0 =
      Nat.ofDigitChars 10 digits 0 * Nat.pow 10 count := by
  rw [Nat.ofDigitChars_append, Nat.ofDigitChars_replicate_zero, Nat.mul_comm]
  rfl

/-- Zeros are digits. -/
theorem isDigit_of_mem_zeros {count : ℕ} {c : Char} (h : c ∈ List.replicate count '0') :
    c.isDigit = true := by
  rw [List.eq_of_mem_replicate h]
  rfl

/-- The digits of a number are digits. -/
theorem isDigits_toDigits (n : ℕ) : IsDigits (Nat.toDigits 10 n) :=
  ⟨Nat.toDigits_ne_nil, fun _ hc => Nat.isDigit_of_mem_toDigits (by decide) (by decide) hc⟩

/-- A padded number consists of digits. -/
theorem isDigits_padded (width n : ℕ) : IsDigits (padded width n) := by
  obtain ⟨hne, hall⟩ := isDigits_toDigits n
  refine ⟨by simp [padded, hne], fun c hc => ?_⟩
  obtain hc | hc := List.mem_append.mp hc
  · exact isDigit_of_mem_zeros hc
  · exact hall c hc

/-- A padded number is read as the number. -/
theorem ofDigitChars_padded (width n : ℕ) : Nat.ofDigitChars 10 (padded width n) 0 = n := by
  rw [padded, ofDigitChars_zeros_append, Nat.ofDigitChars_ten_toDigits]

/-- A written exponent asks for the power that was written. -/
theorem power_scientific (width : ℕ) (exponent : Int) :
    power ('e' :: (if exponent < 0 then '-' else '+') :: padded width exponent.natAbs) =
      exponent := by
  by_cases hsign : exponent < 0
  · have hpower := power_of_isDigits (show ['e', '-'].filter Char.isDigit = [] from rfl)
      (isDigits_padded width exponent.natAbs)
    rw [if_pos hsign]
    rw [ofDigitChars_padded, if_pos (by simp)] at hpower
    exact hpower.trans (by omega)
  · have hpower := power_of_isDigits (show ['e', '+'].filter Char.isDigit = [] from rfl)
      (isDigits_padded width exponent.natAbs)
    rw [if_neg hsign]
    rw [ofDigitChars_padded, if_neg (by simp)] at hpower
    exact hpower.trans (by omega)

/-- Digits before and behind a point, with an exponent, are a numeral of all the digits. -/
theorem exists_spelling_pointed {whole fraction exponent : List Char} (hwhole : IsDigits whole)
    (hfraction : ∀ c ∈ fraction, c.isDigit = true) (hexponent : IsExponent exponent) :
    ∃ p : Spelling, p.sign = [] ∧ p.text = whole ++ '.' :: (fraction ++ exponent) ∧
      p.numeral.value = Binary64.ofDecimal false (Nat.ofDigitChars 10 (whole ++ fraction) 0)
        (power exponent - fraction.length) :=
  ⟨⟨[], whole, '.' :: fraction, exponent, Or.inl rfl, hwhole, Or.inr ⟨fraction, rfl, hfraction⟩,
    hexponent⟩, rfl, rfl, rfl⟩

/-- Some of the digits, from the first on, are digits. -/
theorem isDigits_take {digits : List Char} (h : IsDigits digits) {count : ℕ} (hcount : 0 < count) :
    IsDigits (digits.take count) := by
  have hpos : 0 < digits.length := List.length_pos_iff.mpr h.1
  refine ⟨?_, fun c hc => h.2 c (List.mem_of_mem_take hc)⟩
  rw [← List.length_pos_iff, List.length_take]
  omega

/-- Digits set out around their point are a numeral of their value. -/
theorem exists_spelling_positional {digits : List Char} (h : IsDigits digits) (point : Int) :
    ∃ p : Spelling, p.sign = [] ∧ p.text = positional digits point ∧
      p.numeral.value = Binary64.ofDecimal false (Nat.ofDigitChars 10 digits 0)
        (point - digits.length) := by
  have hpower : power [] = 0 := rfl
  unfold positional
  dsimp only
  split
  · next hpoint =>
    -- zeros between the point and the digits
    have hzero : IsDigits ['0'] := ⟨by simp, by simp⟩
    have hfraction : ∀ c ∈ List.replicate (-point).toNat '0' ++ digits, c.isDigit = true := by
      intro c hc
      obtain hc | hc := List.mem_append.mp hc
      · exact isDigit_of_mem_zeros hc
      · exact h.2 c hc
    obtain ⟨p, hsign, htext, hvalue⟩ := exists_spelling_pointed hzero hfraction (Or.inl rfl)
    refine ⟨p, hsign, by simpa using htext, ?_⟩
    have hone : ['0'] = List.replicate 1 '0' := rfl
    rw [hvalue, hone, ofDigitChars_zeros_append, ofDigitChars_zeros_append, hpower,
      List.length_append, List.length_replicate]
    congr 1
    omega
  split
  · next hpoint hlength =>
    -- zeros between the digits and the point
    generalize hcount : (point - digits.length).toNat = count
    have hwhole : IsDigits (digits ++ List.replicate count '0') := by
      refine ⟨by simp [h.1], fun c hc => ?_⟩
      obtain hc | hc := List.mem_append.mp hc
      · exact h.2 c hc
      · exact isDigit_of_mem_zeros hc
    have hfraction : ∀ c ∈ ['0'], c.isDigit = true := by simp
    obtain ⟨p, hsign, htext, hvalue⟩ := exists_spelling_pointed hwhole hfraction (Or.inl rfl)
    refine ⟨p, hsign, htext, ?_⟩
    rw [hvalue, List.append_assoc, ← List.replicate_succ', ofDigitChars_append_zeros, hpower,
      ← Binary64.ofDecimal_mul_pow false _ (count + 1) (point - digits.length)]
    congr 1
    rw [List.length_singleton]
    omega
  · next hpoint hlength =>
    obtain ⟨p, hsign, htext, hvalue⟩ := exists_spelling_pointed
      (isDigits_take h (show 0 < point.toNat by omega))
      (fun c hc => h.2 c (List.mem_of_mem_drop hc)) (Or.inl rfl)
    refine ⟨p, hsign, by simpa using htext, ?_⟩
    rw [hvalue, List.take_append_drop, List.length_drop, hpower]
    congr 1
    omega

/-- Digits set out with an exponent are a numeral of their value. -/
theorem exists_spelling_scientific {digits : List Char} (h : IsDigits digits) (width : ℕ)
    (exponent : Int) :
    ∃ p : Spelling, p.sign = [] ∧ p.text = scientific width digits exponent ∧
      p.numeral.value = Binary64.ofDecimal false (Nat.ofDigitChars 10 digits 0)
        (exponent + 1 - digits.length) := by
  have hpos : 0 < digits.length := List.length_pos_iff.mpr h.1
  have hwhole := isDigits_take h Nat.one_pos
  have hexponent : IsExponent
      ('e' :: (if exponent < 0 then '-' else '+') :: padded width exponent.natAbs) := by
    refine Or.inr ⟨'e', [if exponent < 0 then '-' else '+'], _, rfl, Or.inl rfl, ?_,
      isDigits_padded width exponent.natAbs⟩
    split <;> simp
  unfold scientific
  dsimp only
  split
  · next hlength =>
    -- a single digit has no point behind it
    refine ⟨⟨[], _, [], _, Or.inl rfl, hwhole, Or.inl rfl, hexponent⟩, rfl,
      by simp [Spelling.text], ?_⟩
    simp only [Spelling.numeral, value, power_scientific, List.tail_nil, List.isEmpty_nil,
      Bool.not_true, List.append_nil, List.length_nil]
    rw [List.take_of_length_le hlength]
    congr 1
    omega
  · next hlength =>
    have hfraction : ∀ c ∈ digits.drop 1, c.isDigit = true :=
      fun c hc => h.2 c (List.mem_of_mem_drop hc)
    obtain ⟨p, hsign, htext, hvalue⟩ := exists_spelling_pointed hwhole hfraction hexponent
    refine ⟨p, hsign, by simpa using htext, ?_⟩
    rw [hvalue, List.take_append_drop, List.length_drop, power_scientific]
    congr 1
    omega

/-- Digits set out by a layout are a numeral of their value. -/
theorem exists_spelling_write (layout : Layout) {digits : List Char} (h : IsDigits digits)
    (exponent : Int) :
    ∃ p : Spelling, p.sign = [] ∧ p.text = layout.write digits (digits.length + exponent) ∧
      p.numeral.value = Binary64.ofDecimal false (Nat.ofDigitChars 10 digits 0) exponent := by
  unfold Layout.write
  dsimp only
  split
  · obtain ⟨p, hsign, htext, hvalue⟩ := exists_spelling_positional h (digits.length + exponent)
    refine ⟨p, hsign, htext, hvalue.trans ?_⟩
    congr 1
    omega
  · obtain ⟨p, hsign, htext, hvalue⟩ := exists_spelling_scientific h layout.exponentDigits
      (digits.length + exponent - 1)
    refine ⟨p, hsign, htext, hvalue.trans ?_⟩
    congr 1
    omega

/-- The text of a magnitude is a numeral that denotes the double with this magnitude. -/
theorem exists_spelling_magnitudeText {units : ℕ} (h : Binary64.Representable units) :
    ∃ p : Spelling, p.sign = [] ∧ p.text = magnitudeText units ∧
      p.numeral.value = .finite false units h := by
  unfold magnitudeText
  split
  · next hzero =>
    subst hzero
    exact exists_spelling_write layout (show IsDigits ['0'] from ⟨by simp, by simp⟩) 0
  · have hdigits := isDigits_toDigits (Binary64.shortest units).1
    obtain ⟨p, hsign, htext, hvalue⟩ :=
      exists_spelling_write layout hdigits (Binary64.shortest units).2
    rw [Nat.ofDigitChars_ten_toDigits, Binary64.ofDecimal_shortest h] at hvalue
    exact ⟨p, hsign, htext, hvalue⟩

/-- The text of a finite double is a numeral that denotes it. -/
theorem exists_spelling_ofBinary64 {x : Binary64} (h : x.isFinite = true) :
    ∃ p : Spelling, p.text = ofBinary64 x ∧ p.numeral.value = x := by
  cases x with
  | nan => cases h
  | infinite negative => cases h
  | finite negative units hunits =>
    obtain ⟨p, hsign, htext, hvalue⟩ := exists_spelling_magnitudeText hunits
    cases negative with
    | false => exact ⟨p, htext, hvalue⟩
    | true =>
      refine ⟨{ p with sign := ['-'], isSign := Or.inr rfl }, ?_, ?_⟩
      · rw [Spelling.text, hsign, List.nil_append] at htext
        rw [Spelling.text, ofBinary64, ← htext, List.singleton_append]
      · simp only [Spelling.numeral, value, hsign, List.isEmpty_nil, Bool.not_true] at hvalue
        simp only [Spelling.numeral, value, List.isEmpty_cons, Bool.not_false]
        rw [Binary64.ofDecimal_true, hvalue, Binary64.negate, Bool.not_false]

end Lisplet.Numeral
