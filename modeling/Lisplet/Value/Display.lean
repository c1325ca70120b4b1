import Lisplet.Value.Inspect

/-!
# Displaying values

The console shows lists in parentheses, texts without quotes, and whole doubles without a
point, so that one half is `0.5` and one is `1`.
-/

namespace Lisplet

/-- How the console shows a number: a whole double by its digits alone. -/
def Number.display : Number → String
  | .whole n => n.repr
  | .real x =>
    match x.toInt? with
    | some n => n.repr
    | none => x.toText

namespace Value

mutual

/-- How the console shows a value. -/
def display : Value → String
  | .list items => "(" ++ String.intercalate " " (displayAll items) ++ ")"
  | .number n => n.display
  | .text s => s
  | .native f => "#<native " ++ f.name ++ ">"
  | value => value.plain

/-- How the console shows the items of a list. -/
def displayAll : List Value → List String
  | [] => []
  | item :: rest => display item :: displayAll rest

end

end Value

end Lisplet
