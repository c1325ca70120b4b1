import Lisplet.Binary64.Rounding

/-!
# Doubles and their arithmetic

A double is not a number, an infinity, or a sign with a representable magnitude. Addition,
multiplication and division take the exact result of two finite operands and round it once,
so a sum is an exact whole number of units before it is rounded. Overflow gives an infinity
and the sign of a zero is kept.
-/

namespace Lisplet

/-- A double, by its exact value; all the ways not to be a number are one. -/
inductive Binary64 where
  | nan
  | infinite (negative : Bool)
  | finite (negative : Bool) (units : Nat) (representable : Binary64.Representable units)
  deriving DecidableEq

namespace Binary64

/-- The number of units in one. -/
def unitsPerOne : Nat := Nat.pow 2 1074

/-- The double nearest to a quotient of units; a quotient that rounds to the limit or beyond
becomes an infinity. -/
def nearest (negative : Bool) (num den : Nat) : Binary64 :=
  if h : roundToPlace num den < limit then
    .finite negative (roundToPlace num den) ⟨lastPlace_dvd_roundToPlace num den, h⟩
  else
    .infinite negative

/-- A representable magnitude is its own nearest double. -/
theorem nearest_of_representable (negative : Bool) {units den : Nat} (h : Representable units)
    (hd : 0 < den) : nearest negative (units * den) den = .finite negative units h := by
  simp only [nearest, roundToPlace_of_dvd h.1 hd, h.2, dite_true]

/-- Only the quotient decides which double is nearest. -/
theorem nearest_scale (negative : Bool) {k : Nat} (hk : 0 < k) (num den : Nat) :
    nearest negative (k * num) (k * den) = nearest negative num den := by
  simp only [nearest, roundToPlace_scale hk]

/-- Zero with the given sign. -/
def zero (negative : Bool) : Binary64 :=
  .finite negative 0 (by decide +kernel)

/-- The double nearest to a whole number. -/
def ofInt (n : Int) : Binary64 :=
  nearest (n < 0) (n.natAbs * unitsPerOne) 1

/-- One. -/
def one : Binary64 := ofInt 1

instance : Inhabited Binary64 := ⟨zero false⟩

/-- A double, unless it is an infinity. -/
def notInfinite? : Binary64 → Option Binary64
  | .infinite _ => none
  | x => some x

/-- The double nearest to a whole number, unless the number is too large for any. -/
def ofInt? (n : Int) : Option Binary64 := notInfinite? (ofInt n)

/-- Whether a double is an actual number. -/
def isFinite : Binary64 → Bool
  | .finite .. => true
  | _ => false

/-- Whether a double is a zero of either sign. -/
def isZero : Binary64 → Bool
  | .finite _ units _ => units == 0
  | _ => false

/-- A magnitude with its sign. -/
def signed (negative : Bool) (units : Nat) : Int :=
  if negative then -(units : Int) else units

/-- The whole number that a double equals, if it equals one. -/
def toInt? : Binary64 → Option Int
  | .finite negative units _ =>
    if units % unitsPerOne = 0 then some (signed negative (units / unitsPerOne)) else none
  | _ => none

/-- The double with the other sign. -/
def negate : Binary64 → Binary64
  | .nan => .nan
  | .infinite negative => .infinite (!negative)
  | .finite negative units h => .finite (!negative) units h

/-- The rounded sum; an exact zero is negative only when both terms are. -/
def add : Binary64 → Binary64 → Binary64
  | .nan, _ => .nan
  | _, .nan => .nan
  | .infinite s, .infinite t => if s = t then .infinite s else .nan
  | .infinite s, .finite .. => .infinite s
  | .finite .., .infinite t => .infinite t
  | .finite s u _, .finite t v _ =>
    let sum := signed s u + signed t v
    if sum = 0 then zero (s && t) else nearest (sum < 0) sum.natAbs 1

/-- The rounded difference. -/
def subtract (x y : Binary64) : Binary64 := x.add y.negate

/-- The rounded product. -/
def multiply : Binary64 → Binary64 → Binary64
  | .nan, _ => .nan
  | _, .nan => .nan
  | .infinite s, .infinite t => .infinite (s != t)
  | .infinite s, .finite t v _ => if v = 0 then .nan else .infinite (s != t)
  | .finite s u _, .infinite t => if u = 0 then .nan else .infinite (s != t)
  | .finite s u _, .finite t v _ => nearest (s != t) (u * v) unitsPerOne

/-- The rounded quotient; a finite number over zero is an infinity. -/
def divide : Binary64 → Binary64 → Binary64
  | .nan, _ => .nan
  | _, .nan => .nan
  | .infinite _, .infinite _ => .nan
  | .infinite s, .finite t _ _ => .infinite (s != t)
  | .finite s _ _, .infinite t => zero (s != t)
  | .finite s u _, .finite t v _ =>
    if v = 0 then (if u = 0 then .nan else .infinite (s != t))
    else nearest (s != t) (u * unitsPerOne) v

end Binary64

end Lisplet
