import Lisplet.Proofs.Form.Progress
import Lisplet.Proofs.Value.Nesting

/-!
# Nesting of the forms that are read

The reader counts the open lists and refuses to open one too many. So no form that it yields is
nested deeper than the limit, also when an error follows the form. A limit below one is no
different from one, since a form that opens outside all lists is never refused.
-/

namespace Lisplet.Form

open Value

/-- Whether open lists leave the forms they become within a bound on their nesting. -/
def OpenedWithin (bound : Int) : List (List Value) → Prop
  | [] => True
  | items :: waiting =>
    (waiting.length : Int) + (Value.list items).nesting ≤ bound ∧ OpenedWithin bound waiting

namespace Progress

/-- Progress in which all lists are within a bound on their nesting. -/
structure Within (bound : Int) (p : Progress) : Prop where
  finished : ∀ form ∈ p.finished, ((Value.list form).nesting : Int) ≤ bound
  opened : OpenedWithin bound p.opened

/-- An atom is not nested. -/
theorem nesting_value (lexeme : Lexeme) : lexeme.value.nesting = 0 := by
  cases lexeme <;> simp [Lexeme.value, Value.real, nesting]

/-- Closing a list keeps all lists within a bound. -/
theorem Within.close {bound : Int} {finished waiting : List (List Value)} {items : List Value}
    (h : Within bound ⟨finished, items :: waiting⟩) :
    Within bound (Progress.close ⟨finished, items :: waiting⟩ items waiting) := by
  obtain ⟨hfinished, hitems, hwaiting⟩ := h
  have hclosed : (Value.list (inOrder items)).nesting = (Value.list items).nesting := by
    simp [inOrder]
  cases waiting with
  | nil =>
    refine ⟨fun form hform => ?_, trivial⟩
    obtain rfl | hform := List.mem_cons.mp hform
    · simpa [hclosed] using hitems
    · exact hfinished form hform
  | cons outer more =>
    obtain ⟨houter, hmore⟩ := hwaiting
    refine ⟨hfinished, ?_, hmore⟩
    rw [List.length_cons] at hitems
    rw [nesting_list] at houter
    rw [nesting_list, nestingAll_cons, hclosed]
    omega

/-- Every token that is accepted keeps all lists within the nesting limit. -/
theorem Within.feed {limit : Int} {p q : Progress} {t : Token} (h : p.Within (max 1 limit))
    (hfeed : p.feed limit t = .ok q) : q.Within (max 1 limit) := by
  obtain ⟨finished, opened⟩ := p
  cases opened with
  | nil =>
    obtain ⟨hfinished, -⟩ := h
    simp only [Progress.feed] at hfeed
    split at hfeed
    · cases hfeed
      refine ⟨hfinished, ?_, trivial⟩
      simp
    · cases hfeed
  | cons items waiting =>
    obtain ⟨hfinished, hitems, hwaiting⟩ := h
    simp only [Progress.feed] at hfeed
    split at hfeed
    · split at hfeed
      · cases hfeed
      · next hbelow =>
        cases hfeed
        refine ⟨hfinished, ?_, hitems, hwaiting⟩
        rw [List.length_cons, nesting_list, nestingAll_nil]
        omega
    · cases hfeed
      exact Within.close ⟨hfinished, hitems, hwaiting⟩
    · next lexeme _ _ =>
      cases hfeed
      refine ⟨hfinished, ?_, hwaiting⟩
      simpa [nesting_value] using hitems

end Progress

/-- The reader yields only forms within the nesting limit. -/
theorem nesting_le_of_mem_drain {limit : Int} {text : String} {form : List Value}
    (h : form ∈ (drain limit (.ofText text)).1) :
    ((Value.list form).nesting : Int) ≤ max 1 limit := by
  obtain ⟨tokens, ending, hyields⟩ := Cursor.exists_yields (Cursor.ofText text)
  rw [drain_eq_run hyields] at h
  have hstart : Progress.Within (max 1 limit) {} := ⟨by simp, trivial⟩
  obtain ⟨p, hwithin, hforms⟩ := Progress.exists_finished_of_run
    (fun t _ p q hp hfeed => Progress.Within.feed hp hfeed) hstart ending
  rw [hforms, List.mem_reverse] at h
  exact hwithin.finished form h

end Lisplet.Form
