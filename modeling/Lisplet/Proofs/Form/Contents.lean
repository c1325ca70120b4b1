import Lisplet.Proofs.Form.Progress

/-!
# What forms are made of

The reader makes forms out of the atoms among the tokens and of lists. So whatever holds of those
atoms, and of a list when it holds of the items, holds of every form that the reader yields, also
when an error follows the form.
-/

namespace Lisplet.Form

variable {Good : Value → Prop}

namespace Progress

/-- Progress in which all finished forms and all items of open lists have a property. -/
structure MadeOf (Good : Value → Prop) (p : Progress) : Prop where
  finished : ∀ form ∈ p.finished, ∀ v ∈ form, Good v
  opened : ∀ items ∈ p.opened, ∀ v ∈ items, Good v

/-- Every token that is accepted keeps a property that lists take from their items. -/
theorem MadeOf.feed (hlist : ∀ items, (∀ v ∈ items, Good v) → Good (.list items)) {limit : Int}
    {p q : Progress} {t : Token} (h : p.MadeOf Good) (ht : Good t.value)
    (hfeed : p.feed limit t = .ok q) : q.MadeOf Good := by
  obtain ⟨finished, opened⟩ := p
  obtain ⟨hfinished, hopened⟩ := h
  cases opened with
  | nil =>
    simp only [Progress.feed] at hfeed
    split at hfeed
    · cases hfeed
      exact ⟨hfinished, by simp⟩
    · cases hfeed
  | cons items waiting =>
    rw [List.forall_mem_cons] at hopened
    obtain ⟨hitems, hwaiting⟩ := hopened
    have hclosed : ∀ v ∈ inOrder items, Good v := fun v hv => hitems v (List.mem_reverse.mp hv)
    simp only [Progress.feed] at hfeed
    split at hfeed
    · split at hfeed
      · cases hfeed
      · cases hfeed
        refine ⟨hfinished, List.forall_mem_cons.mpr ⟨by simp, ?_⟩⟩
        exact List.forall_mem_cons.mpr ⟨hitems, hwaiting⟩
    · cases hfeed
      cases waiting with
      | nil => exact ⟨List.forall_mem_cons.mpr ⟨hclosed, hfinished⟩, by simp [Progress.close]⟩
      | cons outer more =>
        rw [List.forall_mem_cons] at hwaiting
        refine ⟨hfinished, List.forall_mem_cons.mpr ⟨?_, hwaiting.2⟩⟩
        exact List.forall_mem_cons.mpr ⟨hlist _ hclosed, hwaiting.1⟩
    · cases hfeed
      refine ⟨hfinished, List.forall_mem_cons.mpr ⟨?_, hwaiting⟩⟩
      exact List.forall_mem_cons.mpr ⟨ht, hitems⟩

end Progress

/-- The reader yields only forms that are made of lexemes. -/
theorem good_of_mem_drain (hlexeme : ∀ lexeme : Lexeme, Good lexeme.value)
    (hlist : ∀ items, (∀ v ∈ items, Good v) → Good (.list items)) {limit : Int} {text : String}
    {form : List Value} (h : form ∈ (drain limit (.ofText text)).1) : Good (.list form) := by
  obtain ⟨tokens, ending, hyields⟩ := Cursor.exists_yields (Cursor.ofText text)
  rw [drain_eq_run hyields] at h
  have hstart : Progress.MadeOf Good {} := ⟨by simp, by simp⟩
  obtain ⟨p, hmade, hforms⟩ := Progress.exists_finished_of_run
    (fun t _ p q hp hfeed => Progress.MadeOf.feed hlist hp (hlexeme t.lexeme) hfeed) hstart ending
  rw [hforms, List.mem_reverse] at h
  exact hlist form (hmade.finished form h)

end Lisplet.Form
