import Lisplet.Proofs.Scanning.Shifting
import Lisplet.Proofs.Scanning.Spelled

/-!
# Texts that stand elsewhere

What a text scans as depends on the text alone and not on the place it stands at. So a text that
scans from one place to its end spells its lexemes, and it spells the same ones when the blanks
around it are taken away.
-/

namespace Lisplet.Cursor

open Text

variable {p q : Cursor} {t : Token} {tokens : List Token} {here : Position}

/-- The tokens of a text and their end are determined. -/
theorem Yields.unique {others : List Token} {ending ending' : Except SyntaxError Position}
    (h : p.Yields tokens ending) (hothers : p.Yields others ending') :
    tokens = others ∧ ending = ending' := by
  induction h generalizing others with
  | done h =>
    cases hothers with
    | done h' => cases h.symm.trans h'; exact ⟨rfl, rfl⟩
    | failed h' => cases h.symm.trans h'
    | token h' rest' => cases h.symm.trans h'
  | failed h =>
    cases hothers with
    | done h' => cases h.symm.trans h'
    | failed h' => cases h.symm.trans h'; exact ⟨rfl, rfl⟩
    | token h' rest' => cases h.symm.trans h'
  | token h rest ih =>
    cases hothers with
    | done h' => cases h.symm.trans h'
    | failed h' => cases h.symm.trans h'
    | token h' rest' =>
      cases h.symm.trans h'
      obtain ⟨rfl, rfl⟩ := ih rest'
      exact ⟨rfl, rfl⟩

/-- A token that is found at a cursor stands there. -/
theorem Lexes.start_eq {step : Step} (h : Lexes p step) (htoken : step.1 = .ok (some t)) :
    t.start = p.position := by
  cases h <;> cases htoken <;> rfl

/-- The next token of a text has the same lexeme wherever the text stands. -/
theorem next_relocate (h : p.next = (.ok (some t), q)) (here : Position) :
    ∃ t' q', next ⟨p.rest, here⟩ = (.ok (some t'), q') ∧ t'.lexeme = t.lexeme ∧
      q'.rest = q.rest := by
  -- both places are reached by shifting the same text from the start
  have hp := next_shiftedBy ⟨p.rest, {}⟩ p.position
  have hthere := next_shiftedBy ⟨p.rest, {}⟩ here
  rw [shiftedBy_start] at hp hthere
  change p.next = _ at hp
  rw [h] at hp
  generalize next ⟨p.rest, {}⟩ = step at hp hthere
  obtain ⟨outcome, r⟩ := step
  cases outcome with
  | error e => cases hp
  | ok found =>
    cases found with
    | none => cases hp
    | some t' =>
      cases hp
      exact ⟨_, _, hthere, rfl, rfl⟩

/-- Only blanks are left to read where no further token is. -/
theorem isBlank_of_next_eq_none (h : p.next = (.ok none, q)) : ∀ c ∈ p.rest, isBlank c = true := by
  obtain ⟨rfl, hrest⟩ := next_eq_none h
  have hsplit := p.run_append isBlank
  rw [← skipBlanks, hrest, List.append_nil] at hsplit
  exact fun c hc => of_mem_run (hsplit ▸ hc)

/-- Blanks scan as no token. -/
theorem yields_of_isBlank {blanks : List Char} (h : ∀ c ∈ blanks, isBlank c = true)
    (here : Position) : Yields ⟨blanks, here⟩ [] (.ok (here.advanceOver blanks)) := by
  simpa using yields_blanks h (yields_nil (here.advanceOver blanks))

/-- Blanks spell nothing. -/
theorem spells_of_isBlank {blanks : List Char} (h : ∀ c ∈ blanks, isBlank c = true) :
    Spells blanks [] := by
  intro rest position _
  exact ⟨[], rfl, fun others ending hothers => yields_blanks h hothers⟩

/-- Blanks around a text spell no more than the text. -/
theorem Spells.between_blanks {before part after : List Char} {lexemes : List Lexeme}
    (h : Spells part lexemes) (hbefore : ∀ c ∈ before, isBlank c = true)
    (hafter : ∀ c ∈ after, isBlank c = true) : Spells (before ++ (part ++ after)) lexemes := by
  intro rest position hrest
  have hends : EndsAtom (after ++ rest) := by
    cases after with
    | nil => exact hrest
    | cons c after => exact endsAtom_cons.mpr (by simp [Scanner.endsAtom, hafter c])
  obtain ⟨tokens, htokens, hyields⟩ := h (after ++ rest) (position.advanceOver before) hends
  refine ⟨tokens, htokens, fun others ending hothers => ?_⟩
  rw [Position.advanceOver_append, Position.advanceOver_append] at hothers
  rw [List.append_assoc, List.append_assoc]
  exact yields_blanks hbefore (hyields _ _ (yields_blanks hafter hothers))

/-- A text that scans to its end spells the lexemes of its tokens. -/
theorem spells_of_yields (h : p.Yields tokens (.ok here)) :
    Spells p.rest (tokens.map Token.lexeme) := by
  generalize hok : (Except.ok here : Except SyntaxError Position) = ending at h
  induction h with
  | done h => exact spells_of_isBlank (isBlank_of_next_eq_none h)
  | failed h => cases hok
  | @token p q t tokens ending h rest ih =>
    intro more position hmore
    obtain ⟨t', q', hnext, hlexeme, hrest⟩ := next_relocate h position
    obtain ⟨raw, hraw, hposition⟩ := exists_raw_of_next hnext
    rw [hrest] at hraw
    obtain ⟨later, hlater, hyields⟩ := ih hok more q'.position hmore
    refine ⟨t' :: later, by rw [List.map_cons, List.map_cons, hlexeme, hlater], ?_⟩
    intro others ending hothers
    change p.rest = raw ++ q.rest at hraw
    rw [hraw, Position.advanceOver_append, ← hposition] at hothers
    refine .token (next_append hnext hmore) ?_
    rw [append, hrest]
    exact hyields others ending hothers

/-- The blanks around a text can be taken away from what it scans as. -/
theorem yields_of_blanks_around {before text after : List Char} {position : Position}
    (hbefore : ∀ c ∈ before, isBlank c = true) (hafter : ∀ c ∈ after, isBlank c = true)
    (h : Yields ⟨before ++ (text ++ after), position⟩ tokens (.ok here)) :
    Yields ⟨text, position.advanceOver before⟩ tokens
      (.ok ((position.advanceOver before).advanceOver text)) := by
  have hends : EndsAtom after := by
    intro c hc
    simp [Scanner.endsAtom, hafter c (List.mem_of_mem_head? hc)]
  obtain ⟨found, ending, hfound⟩ := exists_yields ⟨text, position.advanceOver before⟩
  cases ending with
  | error e =>
    have hquote : '"' ∉ after := fun hmem => absurd (hafter _ hmem) (by decide)
    obtain ⟨e', hlonger, -⟩ := hfound.append_error hends fun _ => hquote
    cases ((yields_blanks hbefore hlonger).unique h).2
  | ok there =>
    have hlonger := hfound.append hends (yields_of_isBlank hafter there)
    rw [List.append_nil] at hlonger
    obtain ⟨rfl, -⟩ := (yields_blanks hbefore hlonger).unique h
    rwa [hfound.position_eq] at hfound

end Lisplet.Cursor
