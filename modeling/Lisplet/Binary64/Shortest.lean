import Lisplet.Binary64.Decimal

/-!
# The shortest decimal that reads back

A finite double is written with the fewest digits that read back to it. For each number of
digits from one to seventeen the two neighbours of the value on that decimal grid are tried,
the nearer one first and on a tie the even one; the first that reads back is taken. Should
none do, the exact expansion is used, so the result reads back whatever the search finds.
-/

namespace Lisplet.Binary64

/-- How many digits a decimal search tries before it gives up. -/
def mostDigits : Nat := 17

/-- The magnitude in units of `10 ^ exponent`, as a quotient. -/
def scaled (units : Nat) : Int → Nat × Nat
  | .ofNat k => (units, unitsPerOne * Nat.pow 10 k)
  | .negSucc k => (units * Nat.pow 10 (k + 1), unitsPerOne)

/-- Whether a magnitude is less than a power of ten. -/
def belowPower (units : Nat) (exponent : Int) : Bool :=
  let (num, den) := scaled units exponent
  num < den

/-- The place of the decimal point of a positive magnitude: the least power of ten above it.
The estimate from the logarithm in base two never exceeds it and is at most two short. -/
def decimalPoint (units : Nat) : Int :=
  let guess := Int.fdiv (((units.log2 : Int) - 1074) * 30102) 100000
  if belowPower units guess then guess
  else if belowPower units (guess + 1) then guess + 1
  else guess + 2

/-- A quotient's two whole neighbours, the nearer first and on a tie the even one first. -/
def neighbours (num den : Nat) : List Nat :=
  let below := num / den
  if roundHalfEven num den = below then [below, below + 1] else [below + 1, below]

/-- Whether a decimal reads back to the double with this magnitude. -/
def readsBack (units : Nat) (digits : Nat) (exponent : Int) : Bool :=
  match ofDecimal false digits exponent with
  | .finite false u _ => u == units
  | _ => false

/-- The decimals with a given number of digits that read back, the preferred one first. -/
def candidate? (units : Nat) (count : Nat) : Option (Nat × Int) :=
  let exponent := decimalPoint units - count
  let (num, den) := scaled units exponent
  ((neighbours num den).find? (readsBack units · exponent)).map (·, exponent)

/-- A decimal without the trailing zeros of its digits. -/
def dropZeros (digits : Nat) (exponent : Int) : Nat × Int :=
  if _h : 0 < digits ∧ digits % 10 = 0 then dropZeros (digits / 10) (exponent + 1)
  else (digits, exponent)
termination_by digits
decreasing_by omega

/-- The fewest digits, with their exponent, that read back to a positive magnitude. -/
def shortest (units : Nat) : Nat × Int :=
  let found := (List.range' 1 mostDigits).findSome? (candidate? units)
  let (digits, exponent) := found.getD (exactDigits units, -1074)
  dropZeros digits exponent

end Lisplet.Binary64
