import Lisplet.Proofs.Form.Contents
import Lisplet.Proofs.Form.Nesting
import Lisplet.Proofs.Form.Spelled

/-!
# Forms written out as tokens

Forms written out lexeme by lexeme, each list between its parentheses, give back the tokens they
were read from. The tokens in turn leave no choice: only one sequence of forms is written out like
that, and it is what reading them comes to when it fits below the nesting limit.
-/

namespace Lisplet.Form

open Value

/-- The lexemes of forms, one form after the other. -/
def flatten (forms : List (List Value)) : List Lexeme :=
  forms.flatMap fun form => (Value.list form).lexemes

/-- Forms that are made of lists and atoms alone and are written out as the given lexemes. -/
structure WrittenAs (forms : List (List Value)) (lexemes : List Lexeme) : Prop where
  plain : ∀ form ∈ forms, (Value.list form).IsPlain
  flatten_eq : flatten forms = lexemes

/-- An atom is written out as its own lexeme. -/
theorem lexemes_value {lexeme : Lexeme} (hopen : lexeme ≠ .openParen)
    (hclose : lexeme ≠ .closeParen) : lexeme.value.lexemes = [lexeme] := by
  cases lexeme with
  | openParen => exact absurd rfl hopen
  | closeParen => exact absurd rfl hclose
  | text s => rfl
  | symbol name => rfl
  | number x => rfl

/-- The value of every lexeme is plain. -/
theorem isPlain_value (lexeme : Lexeme) : lexeme.value.IsPlain := by
  cases lexeme <;> simp [Lexeme.value, real, IsPlain, Leaves]

namespace Progress

/-- The lexemes of the finished forms and of what has been read of the open lists. -/
def lexemes (p : Progress) : List Lexeme :=
  flatten p.finished.reverse ++
    p.opened.reverse.flatMap fun items => .openParen :: (inOrder items).flatMap Value.lexemes

/-- Closing the innermost list adds a closing parenthesis to the lexemes. -/
theorem lexemes_close (finished waiting : List (List Value)) (items : List Value) :
    (close ⟨finished, items :: waiting⟩ items waiting).lexemes =
      (Progress.mk finished (items :: waiting)).lexemes ++ [.closeParen] := by
  cases waiting with
  | nil => simp [close, lexemes, flatten, lexemes_list]
  | cons outer more => simp [close, lexemes, inOrder, lexemes_list]

/-- Every token that is accepted adds its lexeme. -/
theorem lexemes_feed {limit : Int} {p q : Progress} {t : Token} (h : p.feed limit t = .ok q) :
    q.lexemes = p.lexemes ++ [t.lexeme] := by
  obtain ⟨finished, opened⟩ := p
  cases opened with
  | nil =>
    simp only [feed] at h
    split at h
    · next hkind =>
      cases h
      have hopen : t.lexeme = .openParen := by
        cases hlexeme : t.lexeme <;> simp [Token.kind, hlexeme, Lexeme.kind] at hkind ⊢
      simp [lexemes, inOrder, hopen]
    · cases h
  | cons items waiting =>
    simp only [feed] at h
    split at h
    · next hlexeme =>
      split at h
      · cases h
      · cases h
        simp [lexemes, inOrder, hlexeme]
    · next hlexeme =>
      cases h
      rw [lexemes_close, hlexeme]
    · next hopen hclose =>
      cases h
      simp [lexemes, inOrder, lexemes_value hopen hclose]

/-- Tokens are all accepted when the first is and the others are after it. -/
theorem foldlM_feed_cons {limit : Int} {p q : Progress} {t : Token} {tokens : List Token} :
    (t :: tokens).foldlM (feed limit) p = .ok q ↔
      ∃ p', p.feed limit t = .ok p' ∧ tokens.foldlM (feed limit) p' = .ok q := by
  rw [List.foldlM_cons]
  cases p.feed limit t with
  | error e => simp [bind, Except.bind]
  | ok p' => simp [bind, Except.bind]

/-- Tokens that are all accepted add their lexemes. -/
theorem lexemes_foldlM {limit : Int} {p q : Progress} {tokens : List Token}
    (h : tokens.foldlM (feed limit) p = .ok q) :
    q.lexemes = p.lexemes ++ tokens.map Token.lexeme := by
  induction tokens generalizing p with
  | nil =>
    cases h
    rw [List.map_nil, List.append_nil]
  | cons t rest ih =>
    obtain ⟨p', hfeed, hrest⟩ := foldlM_feed_cons.mp h
    rw [ih hrest, lexemes_feed hfeed, List.map_cons, List.append_assoc, List.singleton_append]

/-- Feeding what forms are written out as finishes the forms. -/
theorem foldlM_feed_forms {limit : Int} {forms : List (List Value)}
    (hplain : ∀ form ∈ forms, (Value.list form).IsPlain)
    (hnesting : ∀ form ∈ forms, ((Value.list form).nesting : Int) ≤ max 1 limit)
    {tokens : List Token} (htokens : tokens.map Token.lexeme = flatten forms)
    (finished : List (List Value)) :
    tokens.foldlM (feed limit) ⟨finished, []⟩ = .ok ⟨forms.reverse ++ finished, []⟩ := by
  induction forms generalizing tokens finished with
  | nil =>
    rw [flatten, List.flatMap_nil, List.map_eq_nil_iff] at htokens
    subst htokens
    rfl
  | cons form rest ih =>
    rw [List.forall_mem_cons] at hplain hnesting
    rw [flatten, List.flatMap_cons, List.map_eq_append_iff] at htokens
    obtain ⟨first, others, rfl, hfirst, hothers⟩ := htokens
    rw [List.foldlM_append, foldlM_feed_form hplain.1 hnesting.1 hfirst, List.reverse_cons,
      List.append_assoc]
    exact ih hplain.2 hnesting.2 hothers (form :: finished)

/-- Tokens are fed without an error exactly when each is accepted and neither the text nor an
open list is broken off at the end. -/
theorem run_eq_ok_iff {limit : Int} {ending : Except SyntaxError Position} {p : Progress}
    {tokens : List Token} {forms : List (List Value)} :
    p.run limit ending tokens = (forms, none) ↔
      (∃ here, ending = .ok here) ∧
        tokens.foldlM (feed limit) p = .ok ⟨forms.reverse, []⟩ := by
  cases hfed : tokens.foldlM (feed limit) p with
  | error e =>
    have hrun := run_of_error hfed ending
    constructor
    · intro h
      rw [h] at hrun
      cases hrun
    · rintro ⟨-, h⟩
      cases h
  | ok q =>
    obtain ⟨finished, opened⟩ := q
    rw [run_of_ok hfed]
    cases ending with
    | error e => simp [finish]
    | ok here =>
      cases opened with
      | nil => simp [finish, List.reverse_eq_iff]
      | cons items waiting => simp [finish]

end Progress

/-- Forms are what all the forms of a text are read as exactly when the text scans and its tokens
are the forms written out, none of them nested too deeply. -/
theorem drain_eq_ok_iff {limit : Int} {text : String} {tokens : List Token}
    {ending : Except SyntaxError Position} (h : (Cursor.ofText text).Yields tokens ending)
    {forms : List (List Value)} :
    drain limit (.ofText text) = (forms, none) ↔
      (∃ here, ending = .ok here) ∧ WrittenAs forms (tokens.map Token.lexeme) ∧
        ∀ form ∈ forms, ((Value.list form).nesting : Int) ≤ max 1 limit := by
  constructor
  · intro hdrain
    have hforms : (drain limit (.ofText text)).1 = forms := by rw [hdrain]
    rw [drain_eq_run h, Progress.run_eq_ok_iff] at hdrain
    obtain ⟨hending, hfed⟩ := hdrain
    have hlexemes := Progress.lexemes_foldlM hfed
    refine ⟨hending, ⟨fun form hform => ?_, ?_⟩, fun form hform => ?_⟩
    · exact good_of_mem_drain isPlain_value (fun items => isPlain_list.mpr) (hforms ▸ hform)
    · simpa [Progress.lexemes, flatten] using hlexemes
    · exact nesting_le_of_mem_drain (hforms ▸ hform)
  · rintro ⟨hending, hwritten, hnesting⟩
    rw [drain_eq_run h, Progress.run_eq_ok_iff]
    have hfed := Progress.foldlM_feed_forms hwritten.plain hnesting hwritten.flatten_eq.symm []
    rw [List.append_nil] at hfed
    exact ⟨hending, hfed⟩

/-- Lexemes are what only one sequence of forms is written out as. -/
theorem WrittenAs.unique {forms others : List (List Value)} {lexemes : List Lexeme}
    (h : WrittenAs forms lexemes) (hothers : WrittenAs others lexemes) : forms = others := by
  -- under a limit that both fit below, feeding the lexemes finishes both
  obtain ⟨limit, hforms, hlimit⟩ : ∃ limit : Int,
      (∀ form ∈ forms, ((Value.list form).nesting : Int) ≤ max 1 limit) ∧
        ∀ form ∈ others, ((Value.list form).nesting : Int) ≤ max 1 limit := by
    refine ⟨max (nestingAll (forms.map .list)) (nestingAll (others.map .list)), ?_, ?_⟩
    · intro form hform
      have hle := nesting_le_of_mem (List.mem_map_of_mem (f := Value.list) hform)
      omega
    · intro form hform
      have hle := nesting_le_of_mem (List.mem_map_of_mem (f := Value.list) hform)
      omega
  have htokens : (lexemes.map fun lexeme => (⟨lexeme, {}, 0⟩ : Token)).map Token.lexeme =
      lexemes := by
    simp [Function.comp_def]
  have hfed := Progress.foldlM_feed_forms h.plain hforms (htokens.trans h.flatten_eq.symm) []
  have hfed' := Progress.foldlM_feed_forms hothers.plain hlimit
    (htokens.trans hothers.flatten_eq.symm) []
  rw [hfed] at hfed'
  simpa using hfed'

end Lisplet.Form
