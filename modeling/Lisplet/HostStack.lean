import Lisplet.Error.Evaluation
import Lisplet.Value.Display

/-!
# The stack of the host

Displaying and inspecting go into the lists of a value by one call inside another. The depth limit
of the settings bounds how deep the reader and the evaluation go, and the host is taken to have the
room for that. It does not bound how deep the lists of a value go: each binding of a `let` can wrap
the value of the one before it in a list. So a value can be too deep to be shown, and then the host
breaks off with a fault of its own, which blames no arguments.
-/

namespace Lisplet

namespace Value

mutual

/-- How many lists of a value lie inside one another at the most. -/
def depth : Value → Nat
  | .list items => depthAll items + 1
  | _ => 0

/-- How many lists of some values lie inside one another at the most. -/
def depthAll : List Value → Nat
  | [] => 0
  | item :: rest => max (depth item) (depthAll rest)

end

end Value

/-- The fault of a host program whose stack is exhausted. -/
def Fault.exhausted : Fault :=
  .host ⟨.other, "RecursionError", "maximum recursion depth exceeded"⟩

/-- The room on the stack of a host program: how many lists inside one another it takes to display
a value, and how many to inspect one, the same wherever that happens. There need be no bound. -/
class HostStack where
  display : Option Nat
  inspect : Option Nat

namespace HostStack

/-- Unless another stack is given, there is no bound. -/
instance unbounded : HostStack := ⟨none, none⟩

/-- Whether a stack has the room to display a value. -/
def displays (stack : HostStack) (v : Value) : Bool := stack.display.all (v.depth ≤ ·)

/-- Whether a stack has the room to inspect a value. -/
def inspects (stack : HostStack) (v : Value) : Bool := stack.inspect.all (v.depth ≤ ·)

/-- How a value is displayed, if the stack has the room for it. -/
def shown (stack : HostStack) (v : Value) : Except Failure String :=
  if stack.displays v then .ok v.display else .error (.fault .exhausted)

end HostStack

end Lisplet
