import Lisplet.Proofs.Scanning.Tokens
import Lisplet.Proofs.Text.Places

/-!
# Tokens of a text that stands behind another

A text scans in the same way wherever it stands. Behind another text all its tokens, and the error
that they may end at, are those that it has by itself, at places counted on from the place behind
that other text.
-/

namespace Lisplet

/-- The same token when the text that it is in stands behind another one. -/
def Token.shiftedBy (t : Token) (base : Position) : Token :=
  { t with start := t.start.shiftedBy base }

/-- The same error when the text that it is in stands behind another one. -/
def SyntaxError.shiftedBy (e : SyntaxError) (base : Position) : SyntaxError :=
  { e with
    line := base.line + e.line
    column := if e.line = 0 then base.column + e.column else e.column }

/-- A fault at a place is shifted with the place. -/
theorem SyntaxError.shiftedBy_atPosition (fault : SyntaxFault) (p base : Position) :
    (atPosition fault p).shiftedBy base = atPosition fault (p.shiftedBy base) := rfl

namespace Cursor

open Text

variable {p q : Cursor} {tokens : List Token}

/-- The same cursor when the text that it is in stands behind another one. -/
def shiftedBy (p : Cursor) (base : Position) : Cursor := ⟨p.rest, p.position.shiftedBy base⟩

/-- What asking for a token comes to when the text stands behind another one. -/
def shiftedOutcome (base : Position) :
    Except SyntaxError (Option Token) → Except SyntaxError (Option Token)
  | .error e => .error (e.shiftedBy base)
  | .ok found => .ok (found.map (·.shiftedBy base))

/-- How the tokens of a text end when it stands behind another one. -/
def shiftedEnding (base : Position) : Except SyntaxError Position → Except SyntaxError Position
  | .error e => .error (e.shiftedBy base)
  | .ok here => .ok (here.shiftedBy base)

/-- A cursor anywhere is one at the start of a text that stands behind another one. -/
theorem shiftedBy_start (rest : List Char) (base : Position) :
    shiftedBy ⟨rest, {}⟩ base = ⟨rest, base⟩ := by
  rw [shiftedBy, Position.shiftedBy_start]

/-- Moving on is the same before a cursor is shifted and after. -/
theorem past_shiftedBy (p : Cursor) (base : Position) (raw : List Char) :
    (p.shiftedBy base).past raw = (p.past raw).shiftedBy base := by
  simp [past, shiftedBy, Position.shiftedBy_advanceOver]

/-- A token at a shifted cursor is the shifted token. -/
theorem token_shiftedBy (p : Cursor) (base : Position) (lexeme : Lexeme) (raw : List Char) :
    (p.shiftedBy base).token lexeme raw =
      (shiftedOutcome base (p.token lexeme raw).1, (p.token lexeme raw).2.shiftedBy base) := by
  rw [token, past_shiftedBy]
  rfl

/-- The rule that applies at a cursor applies wherever the text stands. -/
theorem Lexes.shiftedBy {step : Step} (h : Lexes p step) (base : Position) :
    Lexes (p.shiftedBy base) (shiftedOutcome base step.1, step.2.shiftedBy base) := by
  cases h with
  | finish h => exact .finish h
  | openParen h => rw [← token_shiftedBy]; exact .openParen h
  | closeParen h => rw [← token_shiftedBy]; exact .closeParen h
  | text h hliteral => rw [← token_shiftedBy]; exact .text h hliteral
  | unterminated h hliteral => rw [← past_shiftedBy]; exact .unterminated h hliteral
  | number h hraw hend hmatches => rw [← token_shiftedBy]; exact .number h hraw hend hmatches
  | malformed h hraw hend hmatches => rw [← past_shiftedBy]; exact .malformed h hraw hend hmatches
  | @unexpected raw h hraw hend =>
    have hlexes := Lexes.unexpected (p := p.shiftedBy base) h hraw hend
    rwa [past_shiftedBy] at hlexes
  | symbol h hopen hclose hquote hnumber hraw =>
    rw [← token_shiftedBy]
    exact .symbol h hopen hclose hquote hnumber hraw

/-- The next token is the same wherever the text stands, at a shifted place. -/
theorem next_shiftedBy (p : Cursor) (base : Position) :
    (p.shiftedBy base).next = (shiftedOutcome base p.next.1, p.next.2.shiftedBy base) := by
  have hskip : (p.shiftedBy base).skipBlanks = p.skipBlanks.shiftedBy base := past_shiftedBy ..
  rw [next, hskip]
  exact lexeme_eq_of_lexes ((lexes_lexeme p.skipBlanks).shiftedBy base)

/-- A text yields the same tokens wherever it stands, at shifted places. -/
theorem Yields.shiftedBy {ending : Except SyntaxError Position} (h : p.Yields tokens ending)
    (base : Position) :
    (p.shiftedBy base).Yields (tokens.map (·.shiftedBy base)) (shiftedEnding base ending) := by
  induction h with
  | @done p q h =>
    have hnext := next_shiftedBy p base
    rw [h] at hnext
    exact .done hnext
  | @failed p q e h =>
    have hnext := next_shiftedBy p base
    rw [h] at hnext
    exact .failed hnext
  | @token p q t tokens ending h rest ih =>
    have hnext := next_shiftedBy p base
    rw [h] at hnext
    exact .token hnext ih

end Cursor

end Lisplet
