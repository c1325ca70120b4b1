import Lisplet.Proofs.Scanning.Rules

/-!
# The tokens of a text

A text has a sequence of tokens that ends either with the text or at an error. The sequence is
given as a relation, so that statements about it are proved by following the tokens one by one.
Reading all tokens with the state machine finds exactly this sequence.
-/

namespace Lisplet.Cursor

open Text

/-- The tokens from a cursor on and how they end: at the end of the text, with its position, or
at an error. -/
inductive Yields : Cursor → List Token → Except SyntaxError Position → Prop
  | done {p q : Cursor} (h : p.next = (.ok none, q)) : Yields p [] (.ok q.position)
  | failed {p q : Cursor} {e : SyntaxError} (h : p.next = (.error e, q)) : Yields p [] (.error e)
  | token {p q : Cursor} {t : Token} {tokens : List Token} {ending : Except SyntaxError Position}
      (h : p.next = (.ok (some t), q)) (rest : q.Yields tokens ending) :
      Yields p (t :: tokens) ending

/-- No text at all has no tokens. -/
theorem yields_nil (here : Position) : Yields ⟨[], here⟩ [] (.ok here) :=
  .done (q := ⟨[], here⟩) rfl

/-- Nothing is found only at the end of the text. -/
theorem lexeme_eq_none {p q : Cursor} (h : p.lexeme = (.ok none, q)) : p.rest = [] ∧ q = p := by
  have hlexes := lexes_lexeme p
  rw [h] at hlexes
  cases hlexes with
  | finish hrest => exact ⟨hrest, rfl⟩

/-- When nothing is found, only blanks were left. -/
theorem next_eq_none {p q : Cursor} (h : p.next = (.ok none, q)) :
    q = p.skipBlanks ∧ q.rest = [] := by
  obtain ⟨hrest, rfl⟩ := lexeme_eq_none h
  exact ⟨rfl, hrest⟩

/-- How reading all tokens has ended, by the error that stopped it or else the place reached. -/
def endingOf (error : Option SyntaxError) (last : Scanner) : Except SyntaxError Position :=
  match error with
  | some e => .error e
  | none => .ok last.position

/-- The state machine reads the tokens that the cursor it stands at yields. -/
theorem yields_drain {s : Scanner} {p : Cursor} (h : s.StandsAt p) :
    p.Yields s.drain.1 (endingOf s.drain.2.1 s.drain.2.2) := by
  fun_induction Scanner.drain s generalizing p with
  | case1 s e he =>
    have hagrees := Scanner.next_agrees h
    rw [Scanner.Agrees, he] at hagrees
    exact .failed (Prod.ext hagrees.1.symm rfl)
  | case2 s he =>
    have hagrees := Scanner.next_agrees h
    rw [Scanner.Agrees, he] at hagrees
    have hnext : p.next = (.ok none, p.next.2) := Prod.ext hagrees.1.symm rfl
    rw [endingOf, Scanner.position_eq_of_standsAt hagrees.2 (next_eq_none hnext).2]
    exact .done hnext
  | case3 s t he hlt tokens error last hdrain ih =>
    have hagrees := Scanner.next_agrees h
    rw [Scanner.Agrees, he] at hagrees
    have hrest := ih hagrees.2
    rw [hdrain] at hrest
    exact .token (Prod.ext hagrees.1.symm rfl) hrest

/-- The tokens of a text are those that the scanner at its start yields. -/
theorem yields_drain_ofText (text : String) :
    (ofText text).Yields (Scanner.ofText text).drain.1
      (endingOf (Scanner.ofText text).drain.2.1 (Scanner.ofText text).drain.2.2) :=
  yields_drain (Scanner.standsAt_self text.toList {})

/-- Every text yields tokens and an ending. -/
theorem exists_yields (p : Cursor) : ∃ tokens ending, p.Yields tokens ending :=
  ⟨_, _, yields_drain (Scanner.standsAt_self p.rest p.position)⟩

/-- Blanks in front of a text change nothing but the positions in it. -/
theorem yields_blanks {blanks rest : List Char} {position : Position} {tokens : List Token}
    {ending : Except SyntaxError Position} (hblanks : ∀ c ∈ blanks, isBlank c = true)
    (h : Yields ⟨rest, position.advanceOver blanks⟩ tokens ending) :
    Yields ⟨blanks ++ rest, position⟩ tokens ending := by
  have hnext : next ⟨blanks ++ rest, position⟩ = next ⟨rest, position.advanceOver blanks⟩ := by
    rw [next, next, skipBlanks_append hblanks]
  cases h with
  | done h => exact .done (hnext.trans h)
  | failed h => exact .failed (hnext.trans h)
  | token h rest => exact .token (hnext.trans h) rest

/-- A cursor whose text starts with no blank stands where its next token does. -/
theorem skipBlanks_of_stopsRun {p : Cursor} (h : StopsRun isBlank p.rest) : p.skipBlanks = p := by
  have hrun : p.run isBlank = [] := takeWhile_of_stopsRun h
  rw [skipBlanks, hrun]
  rfl

/-- The next token is the same when the blanks in front of it have been passed over. -/
theorem next_skipBlanks (p : Cursor) : p.skipBlanks.next = p.next := by
  have hskip : p.skipBlanks.skipBlanks = p.skipBlanks :=
    skipBlanks_of_stopsRun (p.stopsRun_past_run isBlank)
  rw [next, hskip, next]

/-- What the rules give a cursor whose text starts with no blank is what its next token is. -/
theorem next_of_lexes {p : Cursor} {step : Step} (h : StopsRun isBlank p.rest)
    (hlexes : Lexes p step) : p.next = step := by
  rw [next, skipBlanks_of_stopsRun h]
  exact lexeme_eq_of_lexes hlexes

/-- An opening parenthesis is a token wherever it stands. -/
theorem next_openParen (rest : List Char) (here : Position) :
    next ⟨'(' :: rest, here⟩ = (.ok (some ⟨.openParen, here, 1⟩), ⟨rest, here.advance '('⟩) :=
  next_of_lexes (stopsRun_cons.mpr (by decide)) (.openParen rfl)

/-- A closing parenthesis is a token wherever it stands. -/
theorem next_closeParen (rest : List Char) (here : Position) :
    next ⟨')' :: rest, here⟩ = (.ok (some ⟨.closeParen, here, 1⟩), ⟨rest, here.advance ')'⟩) :=
  next_of_lexes (stopsRun_cons.mpr (by decide)) (.closeParen rfl)

/-- Asking for a token moves past characters that stood at the cursor. -/
theorem exists_raw_of_next {p q : Cursor} {outcome : Except SyntaxError (Option Token)}
    (h : p.next = (outcome, q)) :
    ∃ raw, p.rest = raw ++ q.rest ∧ q.position = p.position.advanceOver raw := by
  obtain ⟨raw, hrest, hposition⟩ := (lexes_lexeme p.skipBlanks).exists_raw
  rw [← next, h] at hrest hposition
  refine ⟨p.run isBlank ++ raw, ?_, ?_⟩
  · have hsplit := p.run_append isBlank
    rw [← skipBlanks, hrest] at hsplit
    rw [List.append_assoc, hsplit]
  · rw [hposition, Position.advanceOver_append]
    rfl

/-- The tokens of a text end, if they do, at the position behind all of it. -/
theorem Yields.position_eq {p : Cursor} {tokens : List Token} {here : Position}
    (h : p.Yields tokens (.ok here)) : here = p.position.advanceOver p.rest := by
  generalize hok : (Except.ok here : Except SyntaxError Position) = ending at h
  induction h with
  | @done p q h =>
    cases hok
    obtain ⟨raw, hrest, hposition⟩ := exists_raw_of_next h
    rw [(next_eq_none h).2, List.append_nil] at hrest
    rw [hposition, hrest]
  | failed h => cases hok
  | token h rest ih =>
    obtain ⟨raw, hrest, hposition⟩ := exists_raw_of_next h
    rw [ih hok, hposition, hrest, Position.advanceOver_append]

/-- Tokens end at lexical errors alone. -/
theorem Yields.kind_of_error {p : Cursor} {tokens : List Token} {e : SyntaxError}
    (h : p.Yields tokens (.error e)) : e.fault.kind = .lexical := by
  generalize herror : (Except.error e : Except SyntaxError Position) = ending at h
  induction h with
  | done h => cases herror
  | @failed p q e h =>
    cases herror
    exact (lexes_lexeme p.skipBlanks).kind_of_error (by rw [← next, h])
  | token h rest ih => exact ih herror

end Lisplet.Cursor
