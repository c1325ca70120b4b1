import Lisplet.Binary64.Shortest

/-!
# Decimal numerals

A numeral is an optional minus sign, digits, an optional fraction and an optional exponent.
Reading one gives its sign, all its digits as one whole number, and the power of ten that
scales them; the number it denotes is the nearest double. Writing a double uses the fewest
digits that read back, set out positionally in the middle of the range and with an exponent
outside it.
-/

namespace Lisplet

/-- A decimal numeral as written: a sign, its digits, and the power of ten that scales them. -/
structure Numeral where
  negative : Bool
  digits : Nat
  exponent : Int
  deriving DecidableEq

namespace Numeral

/-- The double that a numeral denotes. -/
def value (n : Numeral) : Binary64 := Binary64.ofDecimal n.negative n.digits n.exponent

/-- A whole number from a nonempty text of digits alone. -/
def readDigits? (text : List Char) : Option Nat :=
  if text.isEmpty || !text.all Char.isDigit then none else some (Nat.ofDigitChars 10 text 0)

/-- The exponent part of a numeral, which may be missing. -/
def readExponent? : List Char → Option Int
  | [] => some 0
  | mark :: rest =>
    if mark = 'e' ∨ mark = 'E' then
      match rest with
      | '+' :: digits => (readDigits? digits).map Int.ofNat
      | '-' :: digits => (readDigits? digits).map fun n => -(n : Int)
      | digits => (readDigits? digits).map Int.ofNat
    else none

/-- The fraction digits that follow a point, if there is one, and what comes after them. -/
def splitFraction : List Char → List Char × List Char
  | '.' :: rest => rest.span Char.isDigit
  | rest => ([], rest)

/-- An unsigned numeral: digits, then an optional fraction, then an optional exponent. -/
def readUnsigned? (negative : Bool) (text : List Char) : Option Numeral :=
  let (whole, rest) := text.span Char.isDigit
  let (fraction, tail) := splitFraction rest
  if whole.isEmpty then none
  else (readExponent? tail).map fun exponent =>
    ⟨negative, Nat.ofDigitChars 10 (whole ++ fraction) 0, exponent - fraction.length⟩

/-- The numeral that a text spells, if it spells one. -/
def read? : List Char → Option Numeral
  | '-' :: rest => readUnsigned? true rest
  | text => readUnsigned? false text

/-- How digits are set out: the exponents written positionally and the least number of digits
that a written exponent has. -/
structure Layout where
  leastPositional : Int
  greatestPositional : Int
  exponentDigits : Nat

/-- Digits around their decimal point, with at least one digit on either side of it. -/
def positional (digits : List Char) (point : Int) : List Char :=
  let fill (count : Int) := List.replicate count.toNat '0'
  if point ≤ 0 then '0' :: '.' :: (fill (-point) ++ digits)
  else if digits.length ≤ point then digits ++ fill (point - digits.length) ++ ['.', '0']
  else digits.take point.toNat ++ '.' :: digits.drop point.toNat

/-- A whole number with zeros in front up to a width. -/
def padded (width n : Nat) : List Char :=
  let digits := Nat.toDigits 10 n
  List.replicate (width - digits.length) '0' ++ digits

/-- Digits with one of them before the point, and an exponent that always has a sign. -/
def scientific (exponentDigits : Nat) (digits : List Char) (exponent : Int) : List Char :=
  let fraction := if digits.length ≤ 1 then [] else '.' :: digits.drop 1
  let sign := if exponent < 0 then '-' else '+'
  digits.take 1 ++ fraction ++ 'e' :: sign :: padded exponentDigits exponent.natAbs

/-- The text of digits whose decimal point stands at the given place. -/
def Layout.write (layout : Layout) (digits : List Char) (point : Int) : List Char :=
  let exponent := point - 1
  if layout.leastPositional ≤ exponent ∧ exponent ≤ layout.greatestPositional then
    positional digits point
  else
    scientific layout.exponentDigits digits exponent

/-- Numbers from a ten-thousandth up to sixteen digits before the point are written
positionally; a written exponent has two digits or more. -/
def layout : Layout := ⟨-4, 15, 2⟩

/-- The text of a magnitude that is not negative. -/
def magnitudeText (units : Nat) : List Char :=
  if units = 0 then layout.write ['0'] 1
  else
    let (digits, exponent) := Binary64.shortest units
    let text := Nat.toDigits 10 digits
    layout.write text (text.length + exponent)

/-- The text of a double. -/
def ofBinary64 : Binary64 → List Char
  | .nan => "nan".toList
  | .infinite false => "inf".toList
  | .infinite true => "-inf".toList
  | .finite false units _ => magnitudeText units
  | .finite true units _ => '-' :: magnitudeText units

end Numeral

/-- The text of a double: the shortest numeral that reads back, or a word for the others. -/
def Binary64.toText (x : Binary64) : String := String.ofList (Numeral.ofBinary64 x)

end Lisplet
