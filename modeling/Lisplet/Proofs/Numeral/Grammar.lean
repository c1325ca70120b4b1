import Mathlib.Computability.RegularExpressions
import Mathlib.Tactic.FinCases
import Mathlib.Tactic.IntervalCases
import Lisplet.Numeral
import Lisplet.Proofs.Text.Run

/-!
# The grammar of numerals

A numeral is an optional minus sign, at least one digit, an optional point with any number of
digits behind it, and an optional exponent. The grammar is given twice, as a regular expression
and by the parts of a numeral; a text is read as a number exactly when it matches, and the
number read is the one that its parts denote.
-/

namespace Lisplet.Numeral

open RegularExpression Text

/-- One character out of several. -/
def anyOf (chars : List Char) : RegularExpression Char := (chars.map char).foldr (· + ·) 0

/-- A decimal digit. -/
def digit : RegularExpression Char :=
  anyOf ['0', '1', '2', '3', '4', '5', '6', '7', '8', '9']

/-- Something that may be missing. -/
def optional (part : RegularExpression Char) : RegularExpression Char := 1 + part

/-- The regular expression `-?[0-9]+(\.[0-9]*)?([eE][+-]?[0-9]+)?`. -/
def pattern : RegularExpression Char :=
  optional (char '-') * (digit * digit.star) * optional (char '.' * digit.star) *
    optional (anyOf ['e', 'E'] * optional (anyOf ['+', '-']) * (digit * digit.star))

/-- A choice of characters matches those characters one at a time. -/
theorem mem_anyOf {chars text : List Char} :
    text ∈ (anyOf chars).matches' ↔ ∃ c ∈ chars, text = [c] := by
  induction chars with
  | nil => simp [anyOf]
  | cons c rest ih =>
    have h : (anyOf (c :: rest)).matches' = {[c]} + (anyOf rest).matches' := by
      simp [anyOf]
    rw [h, Language.mem_add, ih, List.exists_mem_cons_iff]
    exact Iff.rfl

/-- A part that may be missing matches the empty text as well. -/
theorem mem_optional {part : RegularExpression Char} {text : List Char} :
    text ∈ (optional part).matches' ↔ text = [] ∨ text ∈ part.matches' := by
  simp [optional, Language.mem_add]

/-- The digits are the characters from zero to nine. -/
theorem isDigit_iff_mem {c : Char} :
    c.isDigit = true ↔ c ∈ ['0', '1', '2', '3', '4', '5', '6', '7', '8', '9'] := by
  constructor
  · intro h
    have hc : c = Char.ofNat c.toNat := (Char.ofNat_toNat c).symm
    obtain ⟨low, high⟩ : 48 ≤ c.toNat ∧ c.toNat ≤ 57 := by
      simpa [Char.isDigit, UInt32.le_iff_toNat_le] using h
    rw [hc]
    generalize c.toNat = n at low high
    interval_cases n <;> decide
  · intro h
    fin_cases h <;> rfl

/-- Any number of digits is a text of digits alone. -/
theorem mem_digit_star {text : List Char} :
    text ∈ digit.star.matches' ↔ ∀ c ∈ text, c.isDigit = true := by
  rw [matches'_star, Language.mem_kstar]
  constructor
  · rintro ⟨words, rfl, hwords⟩ c hc
    obtain ⟨word, hword, hc⟩ := List.mem_flatten.mp hc
    obtain ⟨d, hd, rfl⟩ := mem_anyOf.mp (hwords word hword)
    rw [List.mem_singleton.mp hc]
    exact isDigit_iff_mem.mpr hd
  · intro h
    refine ⟨text.map fun c => [c], by simp [List.flatten_eq_flatMap, List.flatMap_map], ?_⟩
    intro word hword
    obtain ⟨c, hc, rfl⟩ := List.mem_map.mp hword
    exact mem_anyOf.mpr ⟨c, isDigit_iff_mem.mp (h c hc), rfl⟩

/-- A nonempty text of digits alone. -/
def IsDigits (text : List Char) : Prop := text ≠ [] ∧ ∀ c ∈ text, c.isDigit = true

/-- One digit and any number of further ones are a nonempty text of digits. -/
theorem mem_digits {text : List Char} :
    text ∈ (digit * digit.star).matches' ↔ IsDigits text := by
  rw [matches'_mul, Language.mem_mul]
  constructor
  · rintro ⟨first, hfirst, rest, hrest, rfl⟩
    obtain ⟨c, hc, rfl⟩ := mem_anyOf.mp hfirst
    refine ⟨by simp, fun d hd => ?_⟩
    rcases List.mem_cons.mp hd with rfl | hd
    · exact isDigit_iff_mem.mpr hc
    · exact mem_digit_star.mp hrest d hd
  · rintro ⟨hne, hall⟩
    cases text with
    | nil => exact absurd rfl hne
    | cons c rest =>
      exact ⟨[c], mem_anyOf.mpr ⟨c, isDigit_iff_mem.mp (hall c (by simp)), rfl⟩, rest,
        mem_digit_star.mpr fun d hd => hall d (by simp [hd]), rfl⟩

/-- The fraction of a numeral: nothing, or a point with any number of digits. -/
def IsFraction (text : List Char) : Prop :=
  text = [] ∨ ∃ digits, text = '.' :: digits ∧ ∀ c ∈ digits, c.isDigit = true

/-- The exponent of a numeral: nothing, or a mark, perhaps a sign, and digits. -/
def IsExponent (text : List Char) : Prop :=
  text = [] ∨ ∃ mark sign digits, text = mark :: (sign ++ digits) ∧ (mark = 'e' ∨ mark = 'E') ∧
    (sign = [] ∨ sign = ['+'] ∨ sign = ['-']) ∧ IsDigits digits

/-- A numeral by its parts. -/
structure Spelling where
  sign : List Char
  whole : List Char
  fraction : List Char
  exponent : List Char
  isSign : sign = [] ∨ sign = ['-']
  isWhole : IsDigits whole
  isFraction : IsFraction fraction
  isExponent : IsExponent exponent

/-- The text of a numeral, its parts in order. -/
def Spelling.text (p : Spelling) : List Char := p.sign ++ (p.whole ++ (p.fraction ++ p.exponent))

/-- A fraction matches its part of the pattern. -/
theorem mem_fraction {text : List Char} :
    text ∈ (optional (char '.' * digit.star)).matches' ↔ IsFraction text := by
  rw [mem_optional, matches'_mul, matches'_char, Language.mem_mul]
  refine or_congr_right ⟨?_, ?_⟩
  · rintro ⟨point, rfl, digits, hdigits, rfl⟩
    exact ⟨digits, rfl, mem_digit_star.mp hdigits⟩
  · rintro ⟨digits, rfl, hdigits⟩
    exact ⟨['.'], rfl, digits, mem_digit_star.mpr hdigits, rfl⟩

/-- An exponent matches its part of the pattern. -/
theorem mem_exponent {text : List Char} :
    text ∈ (optional (anyOf ['e', 'E'] * optional (anyOf ['+', '-']) *
      (digit * digit.star))).matches' ↔ IsExponent text := by
  rw [mem_optional, matches'_mul, matches'_mul, Language.mem_mul]
  refine or_congr_right ⟨?_, ?_⟩
  · rintro ⟨front, hfront, digits, hdigits, rfl⟩
    obtain ⟨mark, hmark, sign, hsign, rfl⟩ := Language.mem_mul.mp hfront
    obtain ⟨m, hm, rfl⟩ := mem_anyOf.mp hmark
    refine ⟨m, sign, digits, rfl, by simpa using hm, ?_, mem_digits.mp hdigits⟩
    rcases mem_optional.mp hsign with hsign | hsign
    · exact Or.inl hsign
    · obtain ⟨c, hc, rfl⟩ := mem_anyOf.mp hsign
      simpa using hc
  · rintro ⟨mark, sign, digits, rfl, hmark, hsign, hdigits⟩
    refine ⟨mark :: sign, Language.mem_mul.mpr ⟨[mark], ?_, sign, ?_, rfl⟩, digits,
      mem_digits.mpr hdigits, rfl⟩
    · exact mem_anyOf.mpr ⟨mark, by simpa using hmark, rfl⟩
    · rcases hsign with rfl | rfl | rfl
      · exact mem_optional.mpr (Or.inl rfl)
      · exact mem_optional.mpr (Or.inr (mem_anyOf.mpr ⟨'+', by simp, rfl⟩))
      · exact mem_optional.mpr (Or.inr (mem_anyOf.mpr ⟨'-', by simp, rfl⟩))

/-- The texts that match the pattern are those that have the parts of a numeral. -/
theorem mem_pattern {text : List Char} :
    text ∈ pattern.matches' ↔ ∃ p : Spelling, p.text = text := by
  rw [pattern, matches'_mul, matches'_mul, matches'_mul, Language.mem_mul]
  constructor
  · rintro ⟨unsigned, hunsigned, exponent, hexponent, rfl⟩
    obtain ⟨front, hfront, fraction, hfraction, rfl⟩ := Language.mem_mul.mp hunsigned
    obtain ⟨sign, hsign, whole, hwhole, rfl⟩ := Language.mem_mul.mp hfront
    exact ⟨⟨sign, whole, fraction, exponent, mem_optional.mp hsign, mem_digits.mp hwhole,
      mem_fraction.mp hfraction, mem_exponent.mp hexponent⟩, by simp [Spelling.text]⟩
  · rintro ⟨p, rfl⟩
    have hsign : p.sign ∈ (optional (char '-')).matches' := mem_optional.mpr p.isSign
    have hfront := Language.mem_mul.mpr ⟨p.sign, hsign, p.whole, mem_digits.mpr p.isWhole, rfl⟩
    have hunsigned := Language.mem_mul.mpr ⟨p.sign ++ p.whole, hfront, p.fraction,
      mem_fraction.mpr p.isFraction, rfl⟩
    exact ⟨p.sign ++ p.whole ++ p.fraction, hunsigned, p.exponent,
      mem_exponent.mpr p.isExponent, by simp [Spelling.text]⟩

end Lisplet.Numeral
