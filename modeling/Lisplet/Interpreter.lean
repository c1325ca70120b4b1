import Lisplet.Evaluation
import Lisplet.Form

/-!
# Running programs

An interpreter keeps one root environment, which starts with the builtin functions. It reads
a program form by form and evaluates each form before it reads the next, so an error later in
the text does not keep earlier forms from being evaluated. The value of a program is that of
its last form.
-/

namespace Lisplet

namespace Evaluation

/-- Add events to the record. -/
def recordAll (events : List Event) : Evaluation Unit :=
  modify fun m => { m with events := m.events ++ events.toArray }

/-- Evaluate the forms that a scanner still has to yield, and give the last value. The tokens
of a form are recorded before the form. -/
def runForms (host : Host) (settings : Settings) (env : Nat) (code : String) (last : Value)
    (s : Scanner) : Evaluation Value := do
  recordAll ((s.revealedUntil (Form.next settings.maxDepth s).scanner).map .token)
  match h : (Form.next settings.maxDepth s).outcome with
  | .error e => throw (.error (.source (e.within code)))
  | .ok none => return last
  | .ok (some form) =>
    have := Form.remaining_next_lt h
    record (.parsed form)
    let value ← evaluate host settings env 0 (.list form)
    record (.result value)
    runForms host settings env code value (Form.next settings.maxDepth s).scanner
termination_by s.remaining

/-- Evaluate a program. -/
def runProgram (host : Host) (settings : Settings) (env : Nat) (code : String) :
    Evaluation Value :=
  runForms host settings env code .nil (.ofText code)

end Evaluation

/-- An interpreter: its settings and its environments, of which the first is the root. -/
structure Interpreter where
  settings : Settings
  environments : Environments

/-- What a run has come to: its outcome, the events on the way, and the interpreter after. -/
structure Run where
  outcome : Except Failure Value
  events : List Event
  interpreter : Interpreter

namespace Interpreter

/-- The number of the root environment. -/
def root : Nat := 0

/-- An interpreter whose root environment holds the builtin functions. -/
def new (settings : Settings) : Interpreter :=
  ⟨settings, (Environments.push {} none).register root⟩

/-- Bind a name in the root environment. -/
def define (i : Interpreter) (name : String) (value : Value) : Interpreter :=
  { i with environments := i.environments.define root name value }

/-- Run a program. -/
def run (host : Host) (i : Interpreter) (code : String) : Run :=
  let (outcome, m) :=
    (Evaluation.runProgram host i.settings root code).run { environments := i.environments }
  ⟨outcome, m.events.toList, { i with environments := m.environments }⟩

end Interpreter

end Lisplet
