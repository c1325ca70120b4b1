import Lisplet.Environment
import Lisplet.Native
import Lisplet.Settings
import Lisplet.Token

/-!
# Evaluation

Symbols stand for what they are bound to, the empty list for the empty value, and every other
value that is not a list for itself. A list whose head is the word `let` binds names one after
the other in a scope of its own and evaluates its body there; the scope is dropped afterwards,
whatever the outcome. Any other list applies what its head is bound to, with the arguments
evaluated from left to right. The course of an evaluation is recorded as events.
-/

namespace Lisplet

/-- Something that happens while a program is read and evaluated. -/
inductive Event where
  | token (t : Token)
  | parsed (form : List Value)
  | evaluating (form : Value)
  | called (f : Native) (args : List Value)
  | result (value : Value)

/-- What evaluation works on: the environments, and the record of events. -/
structure Machine where
  environments : Environments := {}
  events : Array Event := #[]

/-- A computation on the machine that can fail. What it has done until then stays done. -/
abbrev Evaluation := ExceptT Failure (StateM Machine)

namespace Evaluation

/-- Add an event to the record. -/
def record (event : Event) : Evaluation Unit :=
  modify fun m => { m with events := m.events.push event }

/-- Change the environments. -/
def updateEnvironments (change : Environments → Environments) : Evaluation Unit :=
  modify fun m => { m with environments := change m.environments }

/-- Fail with an evaluation error. -/
def fail {α : Type} (e : EvalError) : Evaluation α := throw e.toFailure

/-- The value of a name. A name without one is an error in strict mode. -/
def resolve (settings : Settings) (env : Nat) (name : String) : Evaluation Value := do
  match (← get).environments.lookup env name with
  | .unbound => if settings.strictUnbound then fail (.unbound name) else return .unbound
  | value => return value

/-- Run a computation in a new scope around an environment, and drop the scope however the
computation ends. -/
def inScope {α : Type} (env : Nat) (body : Nat → Evaluation α) : Evaluation α :=
  ExceptT.mk fun m =>
    let opened : Machine := { m with environments := m.environments.push (some env) }
    let (outcome, after) := (body m.environments.nextNumber).run opened
    (outcome, { after with environments := after.environments.pop })

/-- Apply a native function under a head symbol. A fault that blames the arguments becomes an
error that names the symbol. -/
def call (host : Host) (head : String) (f : Native) (args : List Value) : Evaluation Value := do
  record (.called f args)
  match f.apply host args with
  | .ok value => return value
  | .error (.fault fault) =>
    if fault.blamesArguments then fail (.nativeFault head fault) else throw (.fault fault)
  | .error (.error e) => throw (.error e)

/-- The value of a list headed by something other than a symbol: a lone number or text stands
for itself. -/
def headValue (head : Value) (tail : List Value) : Evaluation Value :=
  match head with
  | .number _ => if tail.isEmpty then return head else fail (.primitiveApplied head)
  | .text _ => if tail.isEmpty then return head else fail (.primitiveApplied head)
  | _ => fail (.cannotApply head)

mutual

/-- The value of an expression in an environment, `depth` evaluations deep. -/
def evaluate (host : Host) (settings : Settings) (env depth : Nat) (expr : Value) :
    Evaluation Value :=
  if settings.maxDepth < depth then fail .tooDeep
  else match expr with
    | .symbol name => resolve settings env name
    | .list [] => return .nil
    | .list (head :: tail) => do
      record (.evaluating (.list (head :: tail)))
      match head with
      | .symbol name =>
        if name = "let" then
          if tail.isEmpty then fail .letWithoutBody
          else inScope env fun scope => evaluateLet host settings scope (depth + 1) tail
        else
          match ← resolve settings env name with
          | .native f =>
            let args ← evaluateAll host settings env (depth + 1) tail
            call host name f args
          | value => return value
      | head => headValue head tail
    | value => return value

/-- The values of expressions, from left to right. -/
def evaluateAll (host : Host) (settings : Settings) (env depth : Nat) :
    List Value → Evaluation (List Value)
  | [] => return []
  | expr :: rest => do
    let value ← evaluate host settings env depth expr
    let values ← evaluateAll host settings env depth rest
    return value :: values

/-- The value of the last expression of a `let`, once the bindings before it are made. -/
def evaluateLet (host : Host) (settings : Settings) (scope depth : Nat) :
    List Value → Evaluation Value
  | [] => fail .letWithoutBody
  | [body] => evaluate host settings scope depth body
  | binding :: rest =>
    match binding with
    | .list [.symbol name, expr] => do
      let value ← evaluate host settings scope depth expr
      updateEnvironments fun es => es.define scope name value
      evaluateLet host settings scope depth rest
    | _ => fail (.malformedBinding binding)

end

end Evaluation

end Lisplet
