import Lisplet.Position
import Lisplet.Value.Basic

/-!
# Tokens

A token is a lexeme with the place it starts at and the number of characters it takes up in
the text, which for a text literal is more than it denotes.
-/

namespace Lisplet

/-- The kinds of token. -/
inductive TokenKind where
  | openParen
  | closeParen
  | text
  | symbol
  | number
  deriving DecidableEq

/-- The name of a kind in messages and logs. -/
def TokenKind.name : TokenKind → String
  | .openParen => "LPAREN"
  | .closeParen => "RPAREN"
  | .text => "STRING"
  | .symbol => "SYMBOL"
  | .number => "NUMBER"

/-- What a token says. -/
inductive Lexeme where
  | openParen
  | closeParen
  | text (s : String)
  | symbol (name : String)
  | number (x : Binary64)
  deriving DecidableEq

/-- The kind of a lexeme. -/
def Lexeme.kind : Lexeme → TokenKind
  | .openParen => .openParen
  | .closeParen => .closeParen
  | .text _ => .text
  | .symbol _ => .symbol
  | .number _ => .number

/-- The value that a lexeme carries; a parenthesis carries itself as a text. -/
def Lexeme.value : Lexeme → Value
  | .openParen => .text "("
  | .closeParen => .text ")"
  | .text s => .text s
  | .symbol name => .symbol name
  | .number x => .real x

/-- A lexeme at its place in a text. -/
structure Token where
  lexeme : Lexeme
  start : Position
  length : Nat
  deriving DecidableEq

/-- The kind of a token. -/
def Token.kind (t : Token) : TokenKind := t.lexeme.kind

/-- The value that a token carries. -/
def Token.value (t : Token) : Value := t.lexeme.value

end Lisplet
