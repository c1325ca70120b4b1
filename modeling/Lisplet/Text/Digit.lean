import Lisplet.Text.Blank

/-!
# Whole numbers in any script

Every decimal digit of Unicode 14 stands in a run of ten that begins with its zero. A whole
number is an optional sign and digits of any scripts, which single underscores may divide,
and white space around it is ignored. Numbers of more than `mostIntegerDigits` digits are
refused, leading zeros included.
-/

namespace Lisplet.Text

/-- The zeros of the decimal digits. -/
def digitZeros : List Nat := [
   0x0030, 0x0660, 0x06F0, 0x07C0, 0x0966, 0x09E6, 0x0A66, 0x0AE6, 0x0B66, 0x0BE6, 0x0C66, 0x0CE6,
   0x0D66, 0x0DE6, 0x0E50, 0x0ED0, 0x0F20, 0x1040, 0x1090, 0x17E0, 0x1810, 0x1946, 0x19D0, 0x1A80,
   0x1A90, 0x1B50, 0x1BB0, 0x1C40, 0x1C50, 0xA620, 0xA8D0, 0xA900, 0xA9D0, 0xA9F0, 0xAA50, 0xABF0,
   0xFF10, 0x104A0, 0x10D30, 0x11066, 0x110F0, 0x11136, 0x111D0, 0x112F0, 0x11450, 0x114D0,
   0x11650, 0x116C0, 0x11730, 0x118E0, 0x11950, 0x11C50, 0x11D50, 0x11DA0, 0x16A60, 0x16AC0,
   0x16B50, 0x1D7CE, 0x1D7D8, 0x1D7E2, 0x1D7EC, 0x1D7F6, 0x1E140, 0x1E2F0, 0x1E950, 0x1FBF0]

/-- The value of a decimal digit of any script. -/
def digitValue? (c : Char) : Option Nat :=
  (digitZeros.find? fun first => first ≤ c.toNat && c.toNat < first + 10).map (c.toNat - ·)

/-- The values of digits that single underscores may divide. The flag says whether a digit
has just been read, which an underscore and the end both need. -/
def readDigitGroups? : Bool → List Char → Option (List Nat)
  | afterDigit, [] => if afterDigit then some [] else none
  | afterDigit, c :: rest =>
    if c = '_' then
      if afterDigit then readDigitGroups? false rest else none
    else do
      let value ← digitValue? c
      let values ← readDigitGroups? true rest
      return value :: values

/-- The most digits a whole number may be written with. -/
def mostIntegerDigits : Nat := 4300

/-- The number that decimal digits spell. -/
def ofDigitValues (values : List Nat) : Nat :=
  values.foldl (fun total value => 10 * total + value) 0

/-- An unsigned whole number. -/
def readNatural? (text : List Char) : Option Nat := do
  let values ← readDigitGroups? false text
  if values.length ≤ mostIntegerDigits then some (ofDigitValues values) else none

/-- White space around a whole number: the blanks but for the information separators. -/
def isPadding (c : Char) : Bool :=
  isBlank c && !(0x1C ≤ c.toNat && c.toNat ≤ 0x1F)

/-- The whole number that a text spells, if it spells one. -/
def readInteger? (text : String) : Option Int :=
  match trimWhere isPadding text.toList with
  | '-' :: rest => (readNatural? rest).map fun n => -(n : Int)
  | '+' :: rest => (readNatural? rest).map Int.ofNat
  | rest => (readNatural? rest).map Int.ofNat

end Lisplet.Text
