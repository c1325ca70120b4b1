import Lisplet.Text.Printable

/-!
# Quoted texts

A quoted text stands between single quotes, or between double quotes when it holds a single
quote and no double one. The backslash, the enclosing quote and the three common controls
have a short escape; every other character that is not printable is written as its code
point in two, four or eight hexadecimal digits.
-/

namespace Lisplet.Text

/-- A code point in lower-case hexadecimal digits, with zeros in front up to a width. -/
def hexadecimal (width n : Nat) : List Char :=
  let digits := Nat.toDigits 16 n
  List.replicate (width - digits.length) '0' ++ digits

/-- How one character is written between the given quotes. -/
def escaped (quote c : Char) : List Char :=
  if c = quote ∨ c = '\\' then ['\\', c]
  else if c = '\n' then ['\\', 'n']
  else if c = '\r' then ['\\', 'r']
  else if c = '\t' then ['\\', 't']
  else if isPrintable c then [c]
  else if c.toNat < 0x100 then '\\' :: 'x' :: hexadecimal 2 c.toNat
  else if c.toNat < 0x10000 then '\\' :: 'u' :: hexadecimal 4 c.toNat
  else '\\' :: 'U' :: hexadecimal 8 c.toNat

/-- The quote that encloses a text. -/
def enclosingQuote (text : List Char) : Char :=
  if '\'' ∈ text ∧ '"' ∉ text then '"' else '\''

/-- A text in quotes. -/
def quoted (text : String) : String :=
  let chars := text.toList
  let quote := enclosingQuote chars
  String.ofList (quote :: (chars.flatMap (escaped quote) ++ [quote]))

end Lisplet.Text
