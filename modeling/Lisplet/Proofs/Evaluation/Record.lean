import Lisplet.Proofs.Evaluation.Keeps
import Lisplet.Proofs.Evaluation.Laws

/-!
# The record of an evaluation

Evaluation never looks at the record of events. What it comes to depends on the environments alone,
and the events on the way are added behind whatever has been recorded before. So an evaluation in
the middle of a run is the same as one that starts with an empty record.
-/

namespace Lisplet.Evaluation

variable {α β : Type} {host : Host} {settings : Settings}

/-- A computation that adds events of evaluation to the record and depends on the environments
alone in all it does. -/
def OnlyRecords (c : Evaluation α) : Prop :=
  ∀ es, ∃ outcome after, ∃ events : List Event, (∀ e ∈ events, e.isOfEvaluation = true) ∧
    ∀ record, c.run ⟨es, record⟩ = (outcome, ⟨after, record ++ events.toArray⟩)

/-- A computation that adds nothing to the record. -/
theorem onlyRecords_of_silent {c : Evaluation α}
    (h : ∀ es, ∃ outcome after, ∀ record, c.run ⟨es, record⟩ = (outcome, ⟨after, record⟩)) :
    OnlyRecords c := by
  intro es
  obtain ⟨outcome, after, hrun⟩ := h es
  exact ⟨outcome, after, [], by simp, fun record => by simp [hrun]⟩

/-- Giving a value adds nothing. -/
theorem onlyRecords_pure (a : α) : OnlyRecords (pure a) :=
  onlyRecords_of_silent fun es => ⟨.ok a, es, fun _ => rfl⟩

/-- Failing with an evaluation error adds nothing. -/
theorem onlyRecords_fail (e : EvalError) : OnlyRecords (fail e : Evaluation α) :=
  onlyRecords_of_silent fun es => ⟨.error e.toFailure, es, fun _ => rfl⟩

/-- Recording an event of evaluation. -/
theorem onlyRecords_record {event : Event} (h : event.isOfEvaluation = true) :
    OnlyRecords (record event) := fun es =>
  ⟨.ok (), es, [event], by simpa using h, fun record => by simp; rfl⟩

/-- Computations in turn add their events in turn. -/
theorem OnlyRecords.bind {c : Evaluation α} {next : α → Evaluation β} (hc : OnlyRecords c)
    (hnext : ∀ a, OnlyRecords (next a)) : OnlyRecords (c >>= next) := by
  intro es
  obtain ⟨outcome, after, events, hevents, hrun⟩ := hc es
  cases outcome with
  | error f =>
    refine ⟨.error f, after, events, hevents, fun record => ?_⟩
    rw [run_bind, hrun]
  | ok a =>
    obtain ⟨outcome', after', events', hevents', hrun'⟩ := hnext a after
    refine ⟨outcome', after', events ++ events', ?_, fun record => ?_⟩
    · exact List.forall_mem_append.mpr ⟨hevents, hevents'⟩
    · rw [run_bind, hrun]
      simp only [hrun', Array.append_assoc, List.append_toArray]

/-- What depends on the machine may depend on its environments but not on its record. -/
theorem onlyRecords_get {next : Machine → Evaluation β}
    (hrecord : ∀ es record, next ⟨es, record⟩ = next { environments := es })
    (h : ∀ es, OnlyRecords (next { environments := es })) : OnlyRecords (get >>= next) := by
  intro es
  obtain ⟨outcome, after, events, hevents, hrun⟩ := h es es
  refine ⟨outcome, after, events, hevents, fun record => ?_⟩
  rw [← hrun, ← hrecord es record]
  rfl

/-- Looking a name up adds nothing. -/
theorem onlyRecords_resolve (env : Nat) (name : String) :
    OnlyRecords (resolve settings env name) := by
  refine onlyRecords_get (fun _ _ => rfl) fun es => ?_
  split
  · split
    · exact onlyRecords_fail _
    · exact onlyRecords_pure _
  · exact onlyRecords_pure _

/-- A computation in a scope of its own adds what it adds anywhere. -/
theorem onlyRecords_inScope (env : Nat) {body : Nat → Evaluation α}
    (hbody : ∀ scope, OnlyRecords (body scope)) : OnlyRecords (inScope env body) := by
  intro es
  obtain ⟨outcome, after, events, hevents, hrun⟩ := hbody es.nextNumber (es.push (some env))
  refine ⟨outcome, after.pop, events, hevents, fun record => ?_⟩
  have hscope : (inScope env body).run ⟨es, record⟩ =
      (((body es.nextNumber).run ⟨es.push (some env), record⟩).1,
        { ((body es.nextNumber).run ⟨es.push (some env), record⟩).2 with
          environments :=
            ((body es.nextNumber).run ⟨es.push (some env), record⟩).2.environments.pop }) := rfl
  rw [hscope, hrun]

/-- Evaluating an expression only adds to the record. -/
theorem onlyRecords_law (host : Host) (settings : Settings) :
    Law host settings fun _ c => OnlyRecords c where
  pure := onlyRecords_pure
  bind hc hnext := hc.bind hnext
  fail := onlyRecords_fail
  record _ h := onlyRecords_record h
  resolve := onlyRecords_resolve
  define scope name value :=
    onlyRecords_of_silent fun es => ⟨.ok (), es.define scope name value, fun _ => rfl⟩
  inScope env _ hbody := onlyRecords_inScope env hbody
  native {_ _ failure} _ := onlyRecords_of_silent fun es => ⟨.error failure, es, fun _ => rfl⟩

end Lisplet.Evaluation
