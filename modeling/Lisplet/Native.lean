import Lisplet.HostStack

/-!
# Native functions

The builtin functions check their arguments before they compute: the number of arguments, and
then that all of them are numbers, the first that is not being the one reported. Sums and
differences of whole numbers are exact until a double takes part; products and quotients are
computed on doubles. A comparison holds of a list when it holds of all neighbours. A builtin
function that shows a value needs the room for that on the stack of the host.
-/

namespace Lisplet

/-- What the functions of the host program do, and the stack that they and the builtin functions
run on. -/
structure Host where
  call : HostFunction → List Value → Except Failure Value
  [stack : HostStack]

namespace Builtin

/-- The arguments as numbers; the first that is not a number is at fault. -/
def numbers (f : Builtin) : List Value → Except Failure (List Number)
  | [] => .ok []
  | arg :: rest =>
    match arg.number? with
    | none => .error (EvalError.notANumber f arg).toFailure
    | some n => (numbers f rest).map (n :: ·)

/-- A double that a computation has come to, unless a whole number was too large. -/
def orOverflow : Option Binary64 → Except Failure Value
  | some x => .ok (.real x)
  | none => .error (.fault .overflow)

/-- The sum of numbers, from the exact zero on. -/
def sum (numbers : List Number) : Option Binary64 :=
  (numbers.foldlM Number.add (.whole 0)).bind Number.toBinary64?

/-- A number less all the others, or its negation when there are none. -/
def difference : List Number → Option Binary64
  | [] => some (Binary64.zero false)
  | [n] => n.toBinary64?.map Binary64.negate
  | first :: rest => (rest.foldlM Number.subtract first).bind Number.toBinary64?

/-- The product of numbers, as doubles from one on. -/
def product (numbers : List Number) : Option Binary64 :=
  numbers.foldlM (fun total n => n.toBinary64?.map total.multiply) Binary64.one

/-- A double divided by numbers in turn, none of which may be zero. -/
def quotient (total : Binary64) : List Number → Except Failure Value
  | [] => .ok (.real total)
  | n :: rest =>
    if n.isZero then .error EvalError.divisionByZero.toFailure
    else match n.toBinary64? with
      | none => .error (.fault .overflow)
      | some x => quotient (total.divide x) rest

/-- A number divided by all the others, or its reciprocal when there are none. -/
def ratio : List Number → Except Failure Value
  | [] => .ok (.real Binary64.one)
  | [n] => quotient Binary64.one [n]
  | first :: rest =>
    match first.toBinary64? with
    | none => .error (.fault .overflow)
    | some x => quotient x rest

/-- Whether a relation holds of all neighbours in a list. -/
def holdsAlong (relation : Number → Number → Bool) : List Number → Bool
  | a :: b :: rest => relation a b && holdsAlong relation (b :: rest)
  | _ => true

/-- The double that stands for a truth value: one or zero. -/
def flag (b : Bool) : Value := .real (if b then Binary64.one else Binary64.zero false)

/-- A comparison of two numbers or more. -/
def compare (f : Builtin) (relation : Number → Number → Bool) (args : List Value) :
    Except Failure Value :=
  if args.length < 2 then .error (EvalError.tooFewArguments f 2).toFailure
  else (numbers f args).map fun ns => flag (holdsAlong relation ns)

/-- The value of a builtin function at its arguments. -/
def apply : Builtin → List Value → Except Failure Value
  | .add, args => (numbers .add args).bind fun ns => orOverflow (sum ns)
  | .subtract, args =>
    if args.isEmpty then .error (EvalError.tooFewArguments .subtract 1).toFailure
    else (numbers .subtract args).bind fun ns => orOverflow (difference ns)
  | .multiply, args => (numbers .multiply args).bind fun ns => orOverflow (product ns)
  | .divide, args =>
    if args.isEmpty then .error (EvalError.tooFewArguments .divide 1).toFailure
    else (numbers .divide args).bind ratio
  | .equal, args => compare .equal Number.equal args
  | .less, args => compare .less Number.less args
  | .greater, args => compare .greater (fun a b => b.less a) args
  | .list, args => .ok (.list args)
  | .concat, args => .ok (.text (String.join (args.map Value.display)))

end Builtin

/-- Whether a stack has the room for what a builtin function shows of its arguments: all of them are
displayed where they are joined to a text, and one that should be a number is inspected. -/
def HostStack.takes (stack : HostStack) (f : Builtin) (args : List Value) : Bool :=
  match f, f.apply args with
  | .concat, _ => args.all stack.displays
  | _, .error (.error (.eval (.notANumber _ arg))) => stack.inspects arg
  | _, _ => true

/-- The value of a native function at its arguments. -/
def Native.apply (host : Host) : Native → List Value → Except Failure Value
  | .builtin f, args =>
    if host.stack.takes f args then f.apply args else .error (.fault .exhausted)
  | .host f, args => host.call f args

end Lisplet
