import Lisplet.Value.Basic

/-!
# Equality of values

Values are equal when they are of one kind and have equal contents, except that numbers and
truth values compare by their exact numeric value, truth counting as one. A value that is not
a number therefore differs even from itself.
-/

namespace Lisplet.Value

/-- The number that a value stands for in a comparison. -/
def numeric? : Value → Option Number
  | .number n => some n
  | .truth b => some (.whole (if b then 1 else 0))
  | _ => none

/-- Whether two values that are not lists are equal. -/
def equalAtoms (a b : Value) : Bool :=
  match a, b with
  | .text s, .text t => s == t
  | .symbol s, .symbol t => s == t
  | .nil, .nil => true
  | .unbound, .unbound => true
  | .absent, .absent => true
  | .native f, .native g => f == g
  | a, b =>
    match a.numeric?, b.numeric? with
    | some m, some n => m.equal n
    | _, _ => false

mutual

/-- Whether two values are equal. -/
def equal : Value → Value → Bool
  | .list items, .list others => equalAll items others
  | a, b => equalAtoms a b

/-- Whether two lists have equal items in the same places. -/
def equalAll : List Value → List Value → Bool
  | [], [] => true
  | a :: rest, b :: others => equal a b && equalAll rest others
  | _, _ => false

end

/-- Whether a value can be a key: lists cannot. -/
def isKey : Value → Bool
  | .list _ => false
  | _ => true

/-- How many different keys two values make, if both can be keys. -/
def keyCount? (a b : Value) : Option Nat :=
  if a.isKey && b.isKey then some (if a.equal b then 1 else 2) else none

end Lisplet.Value
