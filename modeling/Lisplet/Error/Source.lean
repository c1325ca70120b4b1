import Lisplet.Error.Kind
import Lisplet.Text.Lines
import Lisplet.Text.Quoted
import Lisplet.Token

/-!
# Errors in program text

A syntax error is a fault at a place. Together with the text it becomes a source error, which
shows the line at fault with a caret under the column. A host program can also state a source
error of its own, whose line and column need not lie in the text.
-/

namespace Lisplet

/-- What is wrong with a program text. -/
inductive SyntaxFault where
  | unexpectedCharacter
  | malformedNumber (raw : String)
  | unterminatedText
  | expected (wanted : TokenKind) (got : Option TokenKind)
  | nestedTooDeeply
  | unclosed
  | trailingInput
  deriving DecidableEq

/-- The kinds of source error. -/
inductive SourceErrorKind where
  | general
  | lexical
  | parse
  | unbalanced
  deriving DecidableEq

/-- The kind of a source error among all kinds of error. -/
def SourceErrorKind.toErrorKind : SourceErrorKind → ErrorKind
  | .general => .source
  | .lexical => .lexical
  | .parse => .parse
  | .unbalanced => .unbalanced

namespace SyntaxFault

/-- The kind of error that a fault makes. -/
def kind : SyntaxFault → SourceErrorKind
  | .unexpectedCharacter => .lexical
  | .malformedNumber _ => .lexical
  | .unterminatedText => .lexical
  | .expected .. => .parse
  | .nestedTooDeeply => .parse
  | .unclosed => .unbalanced
  | .trailingInput => .parse

/-- The words for a fault. -/
def message : SyntaxFault → String
  | .unexpectedCharacter => "Unexpected character in numeric literal"
  | .malformedNumber raw => "Malformed numeric literal " ++ Text.quoted raw
  | .unterminatedText => "Unterminated string literal"
  | .expected wanted none => "expected " ++ wanted.name ++ ", got end of input"
  | .expected wanted (some got) => "expected " ++ wanted.name ++ ", got " ++ got.name
  | .nestedTooDeeply => "maximum nesting depth exceeded"
  | .unclosed => "unbalanced parenthesis"
  | .trailingInput => "unexpected trailing input"

end SyntaxFault

/-- A fault at a place in a program text. -/
structure SyntaxError where
  fault : SyntaxFault
  line : Nat
  column : Nat
  length : Nat
  deriving DecidableEq

namespace SyntaxError

/-- A fault at a single place. -/
def atPosition (fault : SyntaxFault) (p : Position) : SyntaxError :=
  ⟨fault, p.line, p.column, 1⟩

/-- A fault over a whole token. -/
def atToken (fault : SyntaxFault) (t : Token) : SyntaxError :=
  ⟨fault, t.start.line, t.start.column, t.length⟩

end SyntaxError

/-- An error with the program text it is in. -/
structure SourceError where
  kind : SourceErrorKind
  message : String
  source : String
  line : Int
  column : Int
  length : Int
  deriving DecidableEq

/-- A syntax error with the text it was found in. -/
def SyntaxError.within (e : SyntaxError) (source : String) : SourceError :=
  ⟨e.fault.kind, e.fault.message, source, e.line, e.column, e.length⟩

namespace SourceError

/-- The line at fault, which is empty when the text has no such line. -/
def sourceLine (e : SourceError) : String :=
  match e.line with
  | .ofNat n => String.ofList ((Text.lines e.source.toList)[n]?.getD [])
  | .negSucc _ => ""

/-- A caret under the column at fault. -/
def pointer (e : SourceError) : String :=
  String.ofList (List.replicate e.column.toNat '-' ++ ['^'])

/-- The words, the place, the line and the caret, a line each. -/
def format (e : SourceError) : String :=
  e.message ++ "\nLine " ++ e.line.repr ++ " character " ++ e.column.repr ++ "\n" ++
    e.sourceLine ++ "\n" ++ e.pointer ++ "\n"

end SourceError

end Lisplet
