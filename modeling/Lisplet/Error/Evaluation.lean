import Lisplet.Error.Source
import Lisplet.Value.Inspect

/-!
# Errors of evaluation

An evaluation error states its cause. A native function can also break down with a fault that
is not an error of the language: a number too large for a double, or anything that a host
function reports. Faults of the three families that blame the arguments become evaluation
errors where the function was applied; other faults pass through unchanged.
-/

namespace Lisplet

/-- What a fault of a host function blames; all but the last blame the arguments. -/
inductive FaultFamily where
  | type
  | value
  | arithmetic
  | other
  deriving DecidableEq

/-- A fault that a host function reports, under the name the host knows it by. -/
structure HostFault where
  family : FaultFamily
  name : String
  text : String
  deriving DecidableEq

/-- A breakdown of a native function. -/
inductive Fault where
  | overflow
  | host (fault : HostFault)
  deriving DecidableEq

namespace Fault

/-- What a fault blames. -/
def family : Fault → FaultFamily
  | .overflow => .arithmetic
  | .host fault => fault.family

/-- Whether a fault blames the arguments. -/
def blamesArguments (f : Fault) : Bool := f.family != .other

/-- The words of a fault. -/
def text : Fault → String
  | .overflow => "int too large to convert to float"
  | .host fault => fault.text

end Fault

/-- The kinds of error that are not about program text. -/
inductive EvalErrorKind where
  | general
  | evaluation
  | unboundSymbol
  | invalidName
  deriving DecidableEq

/-- The kind of an evaluation error among all kinds of error. -/
def EvalErrorKind.toErrorKind : EvalErrorKind → ErrorKind
  | .general => .language
  | .evaluation => .evaluation
  | .unboundSymbol => .unboundSymbol
  | .invalidName => .invalidName

/-- Why an expression has no value. The last case is an error in a host program's words. -/
inductive EvalError where
  | tooDeep
  | unbound (name : String)
  | notAName (value : Value)
  | letWithoutBody
  | malformedBinding (binding : Value)
  | primitiveApplied (head : Value)
  | cannotApply (head : Value)
  | tooFewArguments (f : Builtin) (least : Nat)
  | notANumber (f : Builtin) (argument : Value)
  | divisionByZero
  | nativeFault (head : String) (fault : Fault)
  | stated (kind : EvalErrorKind) (message : String)

namespace EvalError

/-- The kind of an evaluation error. -/
def kind : EvalError → EvalErrorKind
  | .unbound _ => .unboundSymbol
  | .notAName _ => .invalidName
  | .stated kind _ => kind
  | _ => .evaluation

/-- The words of an evaluation error. -/
def message : EvalError → String
  | .tooDeep => "maximum evaluation depth exceeded"
  | .unbound name => "Cannot lookup unbound symbol " ++ name
  | .notAName value => "Cannot bind " ++ value.inspect ++ ": not a symbol"
  | .letWithoutBody => "malformed let: missing body"
  | .malformedBinding binding => "malformed let binding: " ++ binding.inspect
  | .primitiveApplied head => "primitives are not callable: " ++ head.inspect
  | .cannotApply head => "unsupported construct: cannot apply " ++ head.inspect
  | .tooFewArguments f least =>
    f.symbol ++ " requires at least " ++ least.repr ++
      (if least = 1 then " argument" else " arguments")
  | .notANumber f argument =>
    "All arguments to " ++ f.symbol ++ " must be numbers, got " ++ argument.inspect
  | .divisionByZero => "/ division by zero"
  | .nativeFault head fault => head ++ ": " ++ fault.text
  | .stated _ message => message

end EvalError

/-- An error of the language. -/
inductive Error where
  | source (e : SourceError)
  | eval (e : EvalError)

namespace Error

/-- The kind of an error. -/
def kind : Error → ErrorKind
  | .source e => e.kind.toErrorKind
  | .eval e => e.kind.toErrorKind

/-- The words of an error; a source error shows its place in the text. -/
def message : Error → String
  | .source e => e.format
  | .eval e => e.message

/-- A text without the line feeds at its end. -/
def withoutFinalLineFeeds (text : String) : String :=
  String.ofList (text.toList.reverse.dropWhile (· == '\n')).reverse

/-- The word in front of a reported error, bold and red where colours are shown. -/
def header (colour : Bool) : String :=
  if colour then "\x1b[1m\x1b[31merror: \x1b[0m" else "error: "

/-- An error as it is reported to the user. -/
def report (colour : Bool) : Error → String
  | .source e => header colour ++ withoutFinalLineFeeds e.format
  | .eval e => header colour ++ e.message

end Error

/-- Why something came to no result: an error of the language, or a fault that is none. -/
inductive Failure where
  | error (e : Error)
  | fault (f : Fault)

/-- An evaluation error as a failure. -/
def EvalError.toFailure (e : EvalError) : Failure := .error (.eval e)

end Lisplet
