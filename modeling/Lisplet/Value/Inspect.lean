import Lisplet.Numeral
import Lisplet.Text.Quoted
import Lisplet.Value.Basic

/-!
# Inspecting values

The inspected form of a value tells values of different kinds apart: texts are quoted,
symbols are marked as symbols, and lists stand in brackets. Messages and logs use it.
-/

namespace Lisplet

/-- The inspected form of a number. -/
def Number.inspect : Number → String
  | .real x => x.toText
  | .whole n => n.repr

/-- The inspected form of a native function. -/
def Native.inspect : Native → String
  | .builtin f => "<function " ++ f.name ++ ">"
  | .host f => f.form

namespace Value

mutual

/-- The inspected form of a value. -/
def inspect : Value → String
  | .list items => "[" ++ String.intercalate ", " (inspectAll items) ++ "]"
  | .number n => n.inspect
  | .text s => Text.quoted s
  | .symbol name => "Symbol(" ++ Text.quoted name ++ ")"
  | .nil => "nil"
  | .unbound => "#<unbound>"
  | .absent => "None"
  | .truth true => "True"
  | .truth false => "False"
  | .native f => f.inspect

/-- The inspected forms of the items of a list. -/
def inspectAll : List Value → List String
  | [] => []
  | item :: rest => inspect item :: inspectAll rest

end

/-- The plain form of a value: a text or symbol as it is, anything else inspected. -/
def plain : Value → String
  | .text s => s
  | .symbol name => name
  | value => value.inspect

end Value

end Lisplet
