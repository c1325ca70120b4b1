import Lisplet.Evaluation

/-!
# The log of a run

Tokens, forms, lists under evaluation and results are logged, each under the name of its
channel. Calls of native functions are events too but have no line in the log.
-/

namespace Lisplet.Event

/-- The line that an event has in the log, if it has one. -/
def logLine? : Event → Option String
  | .token t =>
    some ("toylang.reader.lexer: token " ++ t.kind.name ++ " " ++ t.value.inspect ++ " at " ++
      t.start.line.repr ++ ":" ++ t.start.column.repr)
  | .parsed form => some ("toylang.reader.parser: parsed " ++ (Value.list form).inspect)
  | .evaluating form => some ("toylang.evaluation.evaluator: evaluating " ++ form.inspect)
  | .result value => some ("toylang.interpreter: result " ++ value.inspect)
  | .called .. => none

/-- The log of events, a line each. -/
def log (events : List Event) : String :=
  String.join ((events.filterMap logLine?).map (· ++ "\n"))

/-- The call that an event is, if it is one. -/
def call? : Event → Option (Native × List Value)
  | .called f args => some (f, args)
  | _ => none

/-- The calls of native functions among events, in order. -/
def calls (events : List Event) : List (Native × List Value) := events.filterMap call?

end Lisplet.Event
