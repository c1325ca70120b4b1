import Lisplet.Value.Inspect

/-!
# Program text for values

Lists, the empty value, symbols, texts and finite numbers have a source form that reads back
to an equal tree. The other values have none, and neither has a whole number too large for
any double, because every number is read as a double.
-/

namespace Lisplet

/-- Why a value has no source form. -/
inductive SourceFormError where
  | noSourceForm (value : Value)
  | tooLarge (n : Int)

/-- The words for the lack of a source form. -/
def SourceFormError.message : SourceFormError → String
  | .noSourceForm value => value.inspect ++ " has no source form"
  | .tooLarge _ => "int too large to convert to float"

/-- A double as program text, if it is finite. -/
def Binary64.toSource (x : Binary64) : Except SourceFormError String :=
  if x.isFinite then .ok x.toText else .error (.noSourceForm (.real x))

/-- A number as program text. -/
def Number.toSource : Number → Except SourceFormError String
  | .real x => x.toSource
  | .whole n => (Binary64.ofInt? n).elim (.error (.tooLarge n)) Binary64.toSource

namespace Value

/-- The characters of a text literal between its quotes: the quote and the backslash take a
backslash in front. -/
def literalChars : List Char → List Char
  | [] => []
  | c :: rest =>
    if c = '"' ∨ c = '\\' then '\\' :: c :: literalChars rest else c :: literalChars rest

/-- A text as a literal. -/
def literal (s : String) : String :=
  String.ofList ('"' :: (literalChars s.toList ++ ['"']))

mutual

/-- The program text of a value. -/
def toSource : Value → Except SourceFormError String
  | .list items => do
    let parts ← toSourceAll items
    return "(" ++ String.intercalate " " parts ++ ")"
  | .nil => .ok "()"
  | .symbol name => .ok name
  | .text s => .ok (literal s)
  | .number n => n.toSource
  | value => .error (.noSourceForm value)

/-- The program texts of the items of a list, up to the first that has none. -/
def toSourceAll : List Value → Except SourceFormError (List String)
  | [] => .ok []
  | item :: rest => do
    let part ← toSource item
    let parts ← toSourceAll rest
    return part :: parts

end

end Value

end Lisplet
