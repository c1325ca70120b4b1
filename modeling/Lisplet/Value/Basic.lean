import Lisplet.Number

/-!
# Values

Programs and their results are the same kind of data: lists, numbers, texts and symbols. A
result may also be the empty value, the marker of an unbound name, a native function, or one
of the constants that a host program can bind. A host function is known by its name; what it
does is fixed where programs are evaluated.
-/

namespace Lisplet

/-- The functions that every program starts with. -/
inductive Builtin where
  | add
  | subtract
  | multiply
  | divide
  | equal
  | less
  | greater
  | list
  | concat
  deriving DecidableEq

namespace Builtin

/-- The symbol that a program calls a function by. -/
def symbol : Builtin → String
  | .add => "+"
  | .subtract => "-"
  | .multiply => "*"
  | .divide => "/"
  | .equal => "="
  | .less => "<"
  | .greater => ">"
  | .list => "list"
  | .concat => "concat"

/-- The name that a function is shown with. -/
def name : Builtin → String
  | .add => "add"
  | .subtract => "sub"
  | .multiply => "mul"
  | .divide => "div"
  | .equal => "num_eq"
  | .less => "lt"
  | .greater => "gt"
  | .list => "list_builtin"
  | .concat => "concat"

/-- All the functions, in the order in which an environment receives them. -/
def all : List Builtin :=
  [.add, .subtract, .multiply, .divide, .equal, .less, .greater, .list, .concat]

end Builtin

/-- A function of the program around the interpreter, by the name it is displayed with and
the form it is inspected in. -/
structure HostFunction where
  name : String
  form : String
  deriving DecidableEq

/-- A function that values can be applied to. -/
inductive Native where
  | builtin (f : Builtin)
  | host (f : HostFunction)
  deriving DecidableEq

/-- The name that a native function is displayed with. -/
def Native.name : Native → String
  | .builtin f => f.name
  | .host f => f.name

/-- The data of programs and of their results. -/
inductive Value where
  | list (items : List Value)
  | number (n : Number)
  | text (s : String)
  | symbol (name : String)
  | nil
  | unbound
  | absent
  | truth (b : Bool)
  | native (f : Native)

namespace Value

instance : Inhabited Value := ⟨.nil⟩

/-- A double as a value. -/
def real (x : Binary64) : Value := .number (.real x)

/-- The number that a value is, if it is one. -/
def number? : Value → Option Number
  | .number n => some n
  | _ => none

/-- Whether a value counts as true where the host program asks. -/
def isTruthy : Value → Bool
  | .list items => !items.isEmpty
  | .number n => !n.isZero
  | .text s => !s.isEmpty
  | .symbol _ => true
  | .nil => false
  | .unbound => false
  | .absent => false
  | .truth b => b
  | .native _ => true

end Value

end Lisplet
