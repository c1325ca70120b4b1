import Lisplet.Proofs.Form.Flattening
import Lisplet.Proofs.Form.RoundTrip

/-!
# Beginnings of forms

A text that spells only the beginning of a form ends inside the form: nothing in it is out of place,
and its first parenthesis is still open. So the reader takes a form that comes in pieces for
unfinished until it has all of it.
-/

namespace Lisplet.Form

open Value

namespace Progress

/-- Finished forms stay finished when a token is accepted. -/
theorem finished_suffix_feed {limit : Int} {p q : Progress} {t : Token}
    (h : p.feed limit t = .ok q) : p.finished <:+ q.finished := by
  obtain ⟨finished, opened⟩ := p
  cases opened with
  | nil =>
    simp only [feed] at h
    split at h
    · cases h
      exact List.suffix_refl finished
    · cases h
  | cons items waiting =>
    simp only [feed] at h
    split at h
    · split at h
      · cases h
      · cases h
        exact List.suffix_refl finished
    · cases h
      cases waiting with
      | nil => exact List.suffix_cons (inOrder items) finished
      | cons outer more => exact List.suffix_refl finished
    · cases h
      exact List.suffix_refl finished

/-- Finished forms stay finished when tokens are accepted. -/
theorem finished_suffix_foldlM {limit : Int} {p q : Progress} {tokens : List Token}
    (h : tokens.foldlM (feed limit) p = .ok q) : p.finished <:+ q.finished := by
  induction tokens generalizing p with
  | nil =>
    cases h
    exact List.suffix_refl _
  | cons t rest ih =>
    obtain ⟨p', hfeed, hrest⟩ := foldlM_feed_cons.mp h
    exact (finished_suffix_feed hfeed).trans (ih hrest)

/-- Tokens that are all accepted can be divided anywhere. -/
theorem foldlM_feed_append {limit : Int} {p q : Progress} {tokens others : List Token} :
    (tokens ++ others).foldlM (feed limit) p = .ok q ↔
      ∃ p', tokens.foldlM (feed limit) p = .ok p' ∧ others.foldlM (feed limit) p' = .ok q := by
  rw [List.foldlM_append]
  cases tokens.foldlM (feed limit) p with
  | error e => simp [bind, Except.bind]
  | ok p' => simp [bind, Except.bind]

/-- Progress towards a single form that has made some of its lexemes and not all is progress inside
that form. -/
theorem inside_of_lexemes {p : Progress} {form : List Value} {first later : List Lexeme}
    (hfinished : p.finished <:+ [form]) (hlexemes : p.lexemes = first)
    (hsplit : (Value.list form).lexemes = first ++ later) (hfirst : first ≠ [])
    (hlater : later ≠ []) : p.finished = [] ∧ p.opened ≠ [] := by
  obtain ⟨finished, opened⟩ := p
  subst hlexemes
  obtain rfl | hnone := List.suffix_cons_iff.mp hfinished
  · simp [lexemes, flatten, hlater] at hsplit
  · obtain rfl := List.suffix_nil.mp hnone
    refine ⟨rfl, ?_⟩
    rintro rfl
    exact hfirst rfl

end Progress

variable {limit : Int} {form : List Value} {code : String}

/-- A text that spells a plain list within the nesting limit is read as that form alone. -/
theorem drain_of_spells (hspells : Cursor.Spells code.toList (Value.list form).lexemes)
    (hplain : (Value.list form).IsPlain)
    (hnesting : ((Value.list form).nesting : Int) ≤ max 1 limit) :
    drain limit (.ofText code) = ([form], none) :=
  parseAll_eq_ok_iff.mp (parse_eq_ok_iff.mp (parse_of_spells hspells hplain hnesting))

/-- A text that spells the beginning of a form within the nesting limit leaves a list open and has
no other error. -/
theorem drain_of_beginning (hplain : (Value.list form).IsPlain)
    (hnesting : ((Value.list form).nesting : Int) ≤ max 1 limit) {first later : List Lexeme}
    (hspells : Cursor.Spells code.toList first)
    (hsplit : (Value.list form).lexemes = first ++ later) (hfirst : first ≠ [])
    (hlater : later ≠ []) :
    ∃ e, drain limit (.ofText code) = ([], some e) ∧ e.fault = .unclosed := by
  obtain ⟨tokens, htokens, here, hyields⟩ := hspells.exists_yields
  -- with any tokens for the lexemes that are missing, the form would be finished
  have hwhole : (tokens ++ later.map fun lexeme => (⟨lexeme, {}, 0⟩ : Token)).map Token.lexeme =
      (Value.list form).lexemes := by
    simp [hsplit, htokens, Function.comp_def]
  have hfed := Progress.foldlM_feed_form hplain hnesting hwhole []
  obtain ⟨p, hbegun, hdone⟩ := Progress.foldlM_feed_append.mp hfed
  have hlexemes := Progress.lexemes_foldlM hbegun
  rw [htokens] at hlexemes
  obtain ⟨hfinished, hopened⟩ := Progress.inside_of_lexemes
    (Progress.finished_suffix_foldlM hdone) hlexemes hsplit hfirst hlater
  rw [drain_eq_run hyields, Progress.run_of_ok hbegun, Progress.finish]
  refine ⟨.atPosition .unclosed here, ?_, rfl⟩
  simp [hfinished, hopened]

end Lisplet.Form
