import Lisplet.Proofs.Form.Flattening
import Lisplet.Proofs.Form.Single

/-!
# Counting open lists

Going through the tokens of a text with the number of open lists is enough to tell whether its
forms can be read, and if they cannot, which error comes first and where it is: the items that have
been read never decide whether the next token is in its place. When nothing goes wrong, the forms
are the only ones that are written out as the tokens of the text.
-/

namespace Lisplet.Form

open Cursor (yields_drain_ofText)
open Value

/-- The number of open lists after one more token, or the error that the token makes. Outside all
lists only an opening parenthesis is in its place, and inside one the number of lists must be below
the nesting limit for it. -/
def count (limit : Int) (opened : ℕ) (t : Token) : Except SyntaxError ℕ :=
  match opened, t.lexeme with
  | 0, .openParen => .ok 1
  | 0, _ => .error (.atToken (.expected .openParen (some t.kind)) t)
  | outer + 1, .openParen =>
    if limit ≤ outer + 1 then .error (.atToken .nestedTooDeeply t) else .ok (outer + 2)
  | outer + 1, .closeParen => .ok outer
  | outer + 1, _ => .ok (outer + 1)

/-- What goes wrong first when the tokens of a text are counted from left to right: a token out of
place, else the lexical error that the tokens end at, else the end of the text inside a list. -/
def firstError (limit : Int) (text : String) : Option SyntaxError :=
  let (tokens, lexical, _) := (Scanner.ofText text).drain
  match tokens.foldlM (count limit) 0, lexical with
  | .error e, _ => some e
  | .ok _, some e => some e
  | .ok 0, none => none
  | .ok (_ + 1), none => some (.atPosition .unclosed (Position.advanceOver {} text.toList))

namespace Progress

/-- A token is accepted as the number of open lists says, and changes the number as counted. -/
theorem length_opened_feed (limit : Int) (p : Progress) (t : Token) :
    (p.feed limit t).map (fun q => q.opened.length) = count limit p.opened.length t := by
  obtain ⟨finished, opened⟩ := p
  cases opened with
  | nil =>
    cases hlexeme : t.lexeme <;>
      simp [feed, count, Token.kind, hlexeme, Lexeme.kind, Except.map]
  | cons items waiting =>
    cases hlexeme : t.lexeme with
    | openParen =>
      by_cases hlimit : limit ≤ (waiting.length : Int) + 1
      · simp [feed, count, hlexeme, hlimit, Except.map]
      · simp [feed, count, hlexeme, hlimit, Except.map]
    | closeParen => cases waiting <;> simp [feed, count, hlexeme, close, Except.map]
    | text s => simp [feed, count, hlexeme, Except.map]
    | symbol name => simp [feed, count, hlexeme, Except.map]
    | number x => simp [feed, count, hlexeme, Except.map]

/-- Tokens are accepted as the number of open lists says. -/
theorem length_opened_foldlM (limit : Int) (p : Progress) (tokens : List Token) :
    (tokens.foldlM (feed limit) p).map (fun q => q.opened.length) =
      tokens.foldlM (count limit) p.opened.length := by
  induction tokens generalizing p with
  | nil => rfl
  | cons t rest ih =>
    have hstep := length_opened_feed limit p t
    rw [List.foldlM_cons, List.foldlM_cons, ← hstep]
    cases p.feed limit t with
    | error e => rfl
    | ok q => exact ih q

end Progress

/-- The error that reading all the forms of a text meets is the one that counting finds. -/
theorem drain_eq_firstError (limit : Int) (text : String) :
    (drain limit (.ofText text)).2 = firstError limit text := by
  have hyields := yields_drain_ofText text
  rw [drain_eq_run hyields, firstError]
  generalize (Scanner.ofText text).drain = drained at hyields ⊢
  obtain ⟨tokens, lexical, last⟩ := drained
  dsimp only at hyields ⊢
  have hcount := Progress.length_opened_foldlM limit {} tokens
  change _ = tokens.foldlM (count limit) 0 at hcount
  rw [← hcount]
  cases hfed : tokens.foldlM (Progress.feed limit) {} with
  | error e =>
    rw [Progress.run_of_error hfed]
    rfl
  | ok q =>
    rw [Progress.run_of_ok hfed]
    cases lexical with
    | some e => rfl
    | none =>
      obtain hend : last.position = Position.advanceOver {} text.toList := hyields.position_eq
      obtain ⟨finished, opened⟩ := q
      cases opened with
      | nil => rfl
      | cons items waiting =>
        simp [Progress.finish, Cursor.endingOf, Except.map, hend]

/-- Forms that are written out as the tokens of a text that scans are what it is read as when they
fit below the nesting limit. -/
theorem parseAll_of_writtenAs {limit : Int} {text : String} {forms : List (List Value)}
    (hscans : (Scanner.ofText text).drain.2.1 = none)
    (hwritten : WrittenAs forms ((Scanner.ofText text).drain.1.map Token.lexeme))
    (hnesting : ∀ form ∈ forms, ((Value.list form).nesting : Int) ≤ max 1 limit) :
    parseAll limit text = .ok forms := by
  rw [parseAll_eq_ok_iff, drain_eq_ok_iff (yields_drain_ofText text), hscans]
  exact ⟨⟨_, rfl⟩, hwritten, hnesting⟩

/-- Reading all the forms of a text fails with the first error that counting its open lists finds.
Otherwise it gives the only forms that are written out as the tokens of the text; and all forms that
are and fit below the nesting limit are given. Reading the only form of a text gives a form exactly
when reading all its forms gives that form alone. -/
theorem parseAll_iff_counted (limit : Int) (text : String) :
    let lexemes := (Scanner.ofText text).drain.1.map Token.lexeme
    (∀ e, parseAll limit text = .error e ↔ firstError limit text = some e) ∧
    (∀ got, (SyntaxFault.expected .openParen (some got)).kind = .parse ∧
      (SyntaxFault.expected .openParen (some got)).message = "expected LPAREN, got " ++ got.name) ∧
    (SyntaxFault.nestedTooDeeply.kind = .parse ∧
      SyntaxFault.nestedTooDeeply.message = "maximum nesting depth exceeded") ∧
    SyntaxFault.unclosed.kind = .unbalanced ∧
    (firstError limit text = none → ∃ forms, parseAll limit text = .ok forms ∧
      WrittenAs forms lexemes ∧ ∀ others, WrittenAs others lexemes → others = forms) ∧
    (∀ forms, (Scanner.ofText text).drain.2.1 = none → WrittenAs forms lexemes →
      (∀ form ∈ forms, ((Value.list form).nesting : Int) ≤ max 1 limit) →
      parseAll limit text = .ok forms) ∧
    ∀ form, parse limit text = .ok form ↔ parseAll limit text = .ok [form] := by
  intro lexemes
  refine ⟨fun e => ?_, fun got => ⟨rfl, rfl⟩, ⟨rfl, rfl⟩, rfl, fun hnone => ?_,
    fun forms => parseAll_of_writtenAs, fun form => parse_eq_ok_iff⟩
  · rw [parseAll_eq_error_iff, drain_eq_firstError]
  · rw [← drain_eq_firstError] at hnone
    have hdrain : drain limit (.ofText text) = ((drain limit (.ofText text)).1, none) :=
      Prod.ext rfl hnone
    obtain ⟨-, hwritten, -⟩ := (drain_eq_ok_iff (yields_drain_ofText text)).mp hdrain
    exact ⟨_, parseAll_eq_ok_iff.mpr hdrain, hwritten, fun others hothers =>
      hothers.unique hwritten⟩

/-- Two forms, of which the first nests right up to the limit and holds a parenthesis in a text and
a lone minus sign, are counted without an error and read. -/
theorem parseAll_counted_at_limit :
    firstError 2 "(a (\")\" -))()" = none ∧
      parseAll 2 "(a (\")\" -))()" =
        .ok [[.symbol "a", .list [.text ")", .symbol "-"]], []] := by
  have hnone : firstError 2 "(a (\")\" -))()" = none := by decide +kernel
  have hscans : (Scanner.ofText "(a (\")\" -))()").drain.2.1 = none := by decide +kernel
  have hwritten : WrittenAs [[.symbol "a", .list [.text ")", .symbol "-"]], []]
      ((Scanner.ofText "(a (\")\" -))()").drain.1.map Token.lexeme) :=
    ⟨by simp [IsPlain, Leaves, AllLeaves], by decide +kernel⟩
  exact ⟨hnone, (parseAll_iff_counted 2 _).2.2.2.2.2.1 _ hscans hwritten (by simp [nesting])⟩

end Lisplet.Form
