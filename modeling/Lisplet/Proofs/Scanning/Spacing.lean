import Lisplet.Proofs.Scanning.Requests

/-!
# Blanks between tokens

The tokens of a text written out again, one behind the other and with any blanks in front of them,
between them and behind them, are the same tokens as long as a number or a symbol is followed by a
blank, by a closing parenthesis or by nothing. Where it is not, they are other tokens.
-/

namespace Lisplet

open Text

/-- A token without the place that it starts at. -/
def Token.unplaced (t : Token) : Lexeme × ℕ := (t.lexeme, t.length)

/-- The characters that a token is made of: they start with no blank, and wherever they stand by
themselves they are this token. -/
structure Token.IsMadeOf (t : Token) (raw : List Char) : Prop where
  length : t.length = raw.length
  solid : StopsRun isBlank raw
  next : ∀ here, Cursor.next ⟨raw, here⟩ =
    (.ok (some { t with start := here }), ⟨[], here.advanceOver raw⟩)

/-- Tokens written out one behind the other, each by its characters, with the first of some blanks
in front, the next ones between them and then one more behind. -/
def spaced (raw : Token → List Char) : (ℕ → List Char) → List Token → List Char
  | blanks, [] => blanks 0
  | blanks, t :: tokens => blanks 0 ++ (raw t ++ spaced raw (fun i => blanks (i + 1)) tokens)

/-- Whether blanks keep tokens apart: between two tokens there are some, unless the first is a
parenthesis or a text, or the second is a closing parenthesis. -/
def Separates (blanks : ℕ → List Char) (tokens : List Token) : Prop :=
  ∀ i t u, tokens[i]? = some t → tokens[i + 1]? = some u → blanks (i + 1) = [] →
    t.IsAtom → u.kind = .closeParen

variable {raw : Token → List Char} {blanks : ℕ → List Char} {t : Token} {tokens : List Token}

/-- Blanks keep tokens apart when they keep apart the first two and all but the first. -/
theorem separates_cons :
    Separates blanks (t :: tokens) ↔
      (t.IsAtom → ∀ u ∈ tokens.head?, blanks 1 = [] → u.kind = .closeParen) ∧
        Separates (fun i => blanks (i + 1)) tokens := by
  constructor
  · intro h
    refine ⟨fun hatom u hu hnone => ?_, fun i => h (i + 1)⟩
    rw [List.head?_eq_getElem?] at hu
    exact h 0 t u rfl hu hnone hatom
  · rintro ⟨hfirst, hothers⟩ i s u hs hu hnone hatom
    cases i with
    | zero =>
      obtain rfl := Option.some.inj hs
      exact hfirst hatom u (by rwa [List.head?_eq_getElem?]) hnone
    | succ i => exact hothers i s u hs hu hnone hatom

namespace Cursor

variable {whole : List Char} {p q : Cursor}

/-- A number or a symbol ends where an atom may end. -/
theorem Lexes.endsAtom {step : Step} (h : Lexes p step) (htoken : step.1 = .ok (some t))
    (hatom : t.IsAtom) : EndsAtom step.2.rest := by
  cases h with
  | number h hraw hend hmatches => exact hend
  | @symbol c rest raw h hopen hclose hquote hnumber hraw =>
    exact endsAtom_of_stopsRun (hraw ▸ p.stopsRun_past_run fun c => !Scanner.endsAtom c)
  | finish h => cases htoken
  | openParen h => cases htoken; cases hatom <;> contradiction
  | closeParen h => cases htoken; cases hatom <;> contradiction
  | text h hliteral => cases htoken; cases hatom <;> contradiction
  | unterminated h hliteral => cases htoken
  | malformed h hraw hend hmatches => cases htoken
  | unexpected h hraw hend => cases htoken

/-- A token that is found in a text is made of its characters there. -/
theorem isMadeOf_of_next (hp : p.StandsIn whole) (h : p.next = (.ok (some t), q)) :
    t.IsMadeOf (t.raw whole) := by
  obtain ⟨raw, htakes⟩ := exists_takes_of_next h
  have hsolid : StopsRun isBlank raw := by
    have hstop := p.stopsRun_past_run isBlank
    rw [← skipBlanks, htakes.rest] at hstop
    exact stopsRun_of_append hstop
  -- the token is the same when the text behind it is cut off
  have hwhole : (append ⟨raw, p.skipBlanks.position⟩ q.rest).next =
      (.ok (some t), append ⟨[], q.position⟩ q.rest) := by
    rw [append, ← htakes.rest]
    exact (next_skipBlanks p).trans h
  have hcut := next_of_append hwhole
  rw [htakes.raw_eq hp.skipBlanks]
  refine ⟨htakes.length, hsolid, fun here => ?_⟩
  obtain ⟨t', q', hnext, hlexeme, hrest⟩ := next_relocate hcut here
  obtain ⟨raw', htakes'⟩ := exists_takes_of_next hnext
  rw [skipBlanks_of_stopsRun (p := ⟨raw, here⟩) hsolid] at htakes'
  have hall := htakes'.rest
  rw [hrest, List.append_nil] at hall
  subst hall
  obtain ⟨lexeme, start, length⟩ := t'
  obtain ⟨rest, position⟩ := q'
  obtain rfl : lexeme = t.lexeme := hlexeme
  obtain rfl : start = here := htakes'.start
  obtain rfl : length = t.length := htakes'.length.trans htakes.length.symm
  obtain rfl : rest = [] := hrest
  obtain rfl : position = start.advanceOver raw := htakes'.position
  exact hnext

/-- The tokens of a text are made of their characters in it. -/
theorem Yields.isMadeOf {ending : Except SyntaxError Position} (h : p.Yields tokens ending)
    (hp : p.StandsIn whole) : ∀ t ∈ tokens, t.IsMadeOf (t.raw whole) := by
  induction h with
  | done h => simp
  | failed h => simp
  | token h rest ih =>
    have hq := hp.next
    rw [h] at hq
    exact List.forall_mem_cons.mpr ⟨isMadeOf_of_next hp h, ih hq⟩

end Cursor

/-- The characters of a token start with one that is not blank, and that is a closing parenthesis
just when the token is. -/
theorem Token.IsMadeOf.exists_cons {part : List Char} (h : t.IsMadeOf part) :
    ∃ c rest, part = c :: rest ∧ isBlank c = false ∧ (c = ')' ↔ t.kind = .closeParen) := by
  have hnext := h.next {}
  cases part with
  | nil => cases hnext
  | cons c rest =>
    refine ⟨c, rest, rfl, stopsRun_cons.mp h.solid, fun hc => ?_, fun hkind => ?_⟩
    · subst hc
      rw [Cursor.next_closeParen] at hnext
      have hlexeme : Lexeme.closeParen = t.lexeme :=
        congrArg Token.lexeme (Option.some.inj (Except.ok.inj (Prod.mk.inj hnext).1))
      rw [Token.kind, ← hlexeme]
      rfl
    · obtain ⟨raw, htakes⟩ := Cursor.exists_takes_of_next hnext
      have hread := htakes.readFrom
      have hlexeme : t.lexeme = .closeParen := by
        cases hlexeme : t.lexeme <;> simp [Token.kind, hlexeme, Lexeme.kind] at hkind ⊢
      rw [hlexeme] at hread
      have hrest := htakes.rest
      rw [Cursor.skipBlanks_of_stopsRun (p := ⟨c :: rest, {}⟩) h.solid, hread] at hrest
      exact (List.cons.inj hrest).1

/-- Where a token is found again at the start of a text that goes on behind its characters, it is
not read any further than these, so that an atom ends there. -/
theorem Token.IsMadeOf.rest_of_next {part more : List Char} {here : Position} {t' : Token}
    {q : Cursor} (hmade : t.IsMadeOf part)
    (hnext : Cursor.next ⟨part ++ more, here⟩ = (.ok (some t'), q))
    (hsame : t'.unplaced = t.unplaced) :
    q.rest = more ∧ (t.IsAtom → Cursor.EndsAtom more) := by
  obtain ⟨hlexeme, hlength⟩ := Prod.mk.inj hsame
  obtain ⟨c, inner, rfl, hsolid, -⟩ := hmade.exists_cons
  have hstays : Cursor.skipBlanks ⟨c :: inner ++ more, here⟩ = ⟨c :: inner ++ more, here⟩ :=
    Cursor.skipBlanks_of_stopsRun (stopsRun_cons.mpr hsolid)
  obtain ⟨raw, htakes⟩ := Cursor.exists_takes_of_next hnext
  have hsplit := htakes.rest
  rw [hstays] at hsplit
  have hrest : q.rest = more :=
    (List.append_inj hsplit (by rw [← hmade.length, ← hlength, htakes.length])).2.symm
  have hlexes := Cursor.lexes_lexeme (Cursor.skipBlanks ⟨c :: inner ++ more, here⟩)
  rw [← Cursor.next, hnext] at hlexes
  refine ⟨hrest, fun hatom => ?_⟩
  rw [← hrest]
  refine hlexes.endsAtom rfl ?_
  rwa [Token.IsAtom, Token.kind, hlexeme]

namespace Cursor

variable {p q : Cursor}

/-- An atom may end before tokens that are written out with blanks, unless they start with one that
has no blanks in front of it and is no closing parenthesis. -/
theorem endsAtom_spaced (hblank : ∀ c ∈ blanks 0, isBlank c = true)
    (hmade : ∀ t ∈ tokens, t.IsMadeOf (raw t)) :
    EndsAtom (spaced raw blanks tokens) ↔
      ∀ u ∈ tokens.head?, blanks 0 = [] → u.kind = .closeParen := by
  cases tokens with
  | nil =>
    have hends : EndsAtom (blanks 0) := fun c hc => by
      simp [Scanner.endsAtom, hblank c (List.mem_of_mem_head? hc)]
    simp [spaced, hends]
  | cons u rest =>
    obtain ⟨c, inner, hpart, hsolid, hclose⟩ := (hmade u List.mem_cons_self).exists_cons
    rw [spaced, hpart, List.head?_cons]
    cases hblanks : blanks 0 with
    | nil => simp [Scanner.endsAtom, hsolid, hclose]
    | cons d more => simp [Scanner.endsAtom, hblank d (by simp [hblanks])]

/-- Tokens that are written out with blanks that keep them apart are found again. -/
theorem exists_yields_spaced (hblank : ∀ i ≤ tokens.length, ∀ c ∈ blanks i, isBlank c = true)
    (hmade : ∀ t ∈ tokens, t.IsMadeOf (raw t)) (hseparates : Separates blanks tokens)
    (here : Position) : ∃ found there, Yields ⟨spaced raw blanks tokens, here⟩ found (.ok there) ∧
      found.map Token.unplaced = tokens.map Token.unplaced := by
  induction tokens generalizing blanks here with
  | nil => exact ⟨[], _, yields_of_isBlank (hblank 0 (Nat.le_refl _)) here, rfl⟩
  | cons t rest ih =>
    rw [separates_cons] at hseparates
    rw [List.forall_mem_cons] at hmade
    have hbehind (i : ℕ) (hi : i ≤ rest.length) := hblank (i + 1) (Nat.succ_le_succ hi)
    have hends : t.IsAtom → EndsAtom (spaced raw (fun i => blanks (i + 1)) rest) := fun hatom =>
      (endsAtom_spaced (hbehind 0 (Nat.zero_le _)) hmade.2).mpr (hseparates.1 hatom)
    have hnext := next_append_of_cut (hmade.1.next (here.advanceOver (blanks 0)))
      fun hatom _ => hends hatom
    obtain ⟨found, there, hfound, hsame⟩ := ih hbehind hmade.2 hseparates.2
      ((here.advanceOver (blanks 0)).advanceOver (raw t))
    refine ⟨_, there, yields_blanks (hblank 0 (Nat.zero_le _)) (.token hnext hfound), ?_⟩
    rw [List.map_cons, List.map_cons, hsame]
    rfl

/-- Blanks with which written out tokens are found again keep them apart. -/
theorem separates_of_yields (hblank : ∀ i ≤ tokens.length, ∀ c ∈ blanks i, isBlank c = true)
    (hmade : ∀ t ∈ tokens, t.IsMadeOf (raw t)) {here : Position} {found : List Token}
    {ending : Except SyntaxError Position}
    (h : Yields ⟨spaced raw blanks tokens, here⟩ found ending)
    (hsame : found.map Token.unplaced = tokens.map Token.unplaced) : Separates blanks tokens := by
  induction tokens generalizing blanks here found with
  | nil =>
    intro i t u ht
    cases ht
  | cons t rest ih =>
    rw [List.forall_mem_cons] at hmade
    have hbehind (i : ℕ) (hi : i ≤ rest.length) := hblank (i + 1) (Nat.succ_le_succ hi)
    obtain ⟨t', found', rfl, ht', hsame'⟩ := List.map_eq_cons_iff.mp hsame
    cases h with
    | @token _ q _ _ _ hnext hfound =>
      rw [next, spaced, skipBlanks_append (hblank 0 (Nat.zero_le _)), ← next] at hnext
      obtain ⟨hrest, hends⟩ := hmade.1.rest_of_next hnext ht'
      obtain ⟨left, there⟩ := q
      obtain rfl : left = _ := hrest
      refine separates_cons.mpr ⟨fun hatom => ?_, ih hbehind hmade.2 hfound hsame'⟩
      exact (endsAtom_spaced (hbehind 0 (Nat.zero_le _)) hmade.2).mp (hends hatom)

end Cursor

end Lisplet
