import Lisplet.Binary64.Basic

/-!
# Numbers

A number is a double or a whole number of any size. Whole numbers stay exact among
themselves and become doubles when they meet one, which fails only when the whole number is
too large for any double. Comparison looks at the exact values and never rounds; a double
that is not a number has no place in the order and so compares false with everything.
-/

namespace Lisplet

/-- A double or an exact whole number. -/
inductive Number where
  | real (x : Binary64)
  | whole (n : Int)
  deriving DecidableEq

/-- A place on the number line that a number can take, in units of the least double. -/
inductive Extent where
  | bottom
  | units (n : Int)
  | top
  deriving DecidableEq

/-- Whether one place lies strictly below another. -/
def Extent.below : Extent → Extent → Bool
  | .bottom, .bottom => false
  | .bottom, _ => true
  | .units _, .bottom => false
  | .units m, .units n => m < n
  | .units _, .top => true
  | .top, _ => false

namespace Number

/-- The number as a double, unless it is a whole number too large for any. -/
def toBinary64? : Number → Option Binary64
  | .real x => some x
  | .whole n => Binary64.ofInt? n

/-- The place of a number on the line; a double that is not a number has none. -/
def extent? : Number → Option Extent
  | .real .nan => none
  | .real (.infinite negative) => some (if negative then .bottom else .top)
  | .real (.finite negative units _) => some (.units (Binary64.signed negative units))
  | .whole n => some (.units (n * Binary64.unitsPerOne))

/-- Whether a number is zero. -/
def isZero : Number → Bool
  | .real x => x.isZero
  | .whole n => n == 0

/-- Whether two numbers have the same place. -/
def equal (a b : Number) : Bool :=
  match a.extent?, b.extent? with
  | some x, some y => x == y
  | _, _ => false

/-- Whether the first number lies below the second. -/
def less (a b : Number) : Bool :=
  match a.extent?, b.extent? with
  | some x, some y => x.below y
  | _, _ => false

/-- Combine two whole numbers exactly, and any other two as doubles. -/
def combine (exact : Int → Int → Int) (rounded : Binary64 → Binary64 → Binary64) :
    Number → Number → Option Number
  | .whole m, .whole n => some (.whole (exact m n))
  | a, b => do
    let x ← a.toBinary64?
    let y ← b.toBinary64?
    return .real (rounded x y)

/-- The sum, unless a whole number is too large to meet a double. -/
def add : Number → Number → Option Number := combine (· + ·) Binary64.add

/-- The difference, unless a whole number is too large to meet a double. -/
def subtract : Number → Number → Option Number := combine (· - ·) Binary64.subtract

end Number

end Lisplet
