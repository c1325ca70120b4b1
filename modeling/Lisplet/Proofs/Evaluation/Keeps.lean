import Lisplet.Evaluation

/-!
# Invariants of evaluation

What holds of the machine before a computation and still holds after it, however the computation
ends, together with what holds of its value or of its failure. The rules follow the ways in which
computations are put together, so that a law about evaluation needs no look at the machine where
evaluation itself does not look at it.
-/

namespace Lisplet.Evaluation

variable {α β : Type} {I : Machine → Prop} {P : α → Prop} {Q : β → Prop} {F : Failure → Prop}

/-- A computation that keeps an invariant of the machine and comes only to certain values and
failures. -/
def Keeps (I : Machine → Prop) (P : α → Prop) (F : Failure → Prop) (c : Evaluation α) : Prop :=
  ∀ m, I m → I (c.run m).2 ∧
    match (c.run m).1 with
    | .ok a => P a
    | .error f => F f

/-- Giving a value leaves the machine as it is. -/
theorem keeps_pure {a : α} (h : P a) : Keeps I P F (pure a) := fun _ hm => ⟨hm, h⟩

/-- Failing leaves the machine as it is. -/
theorem keeps_throw {f : Failure} (h : F f) : Keeps I P F (throw f) := fun _ hm => ⟨hm, h⟩

/-- Failing with an evaluation error leaves the machine as it is. -/
theorem keeps_fail {e : EvalError} (h : F e.toFailure) : Keeps I P F (fail e) := keeps_throw h

/-- Computations in turn: the second starts on the machine that the first leaves, and not at all
when the first fails. -/
theorem run_bind (c : Evaluation α) (next : α → Evaluation β) (m : Machine) :
    (c >>= next).run m =
      match c.run m with
      | (.ok a, after) => (next a).run after
      | (.error f, after) => (.error f, after) := by
  rw [ExceptT.run_bind]
  cases houtcome : c.run m with
  | mk outcome after =>
    cases outcome with
    | ok a => simp [bind, StateT.bind, houtcome]
    | error f =>
      simp only [bind, StateT.bind, houtcome]
      rfl

/-- What a computation goes on with works on its value and on the machine it leaves. -/
theorem keeps_bind {c : Evaluation α} {next : α → Evaluation β} (hc : Keeps I P F c)
    (hnext : ∀ a, P a → Keeps I Q F (next a)) : Keeps I Q F (c >>= next) := by
  intro m hm
  obtain ⟨hkept, hend⟩ := hc m hm
  rw [run_bind]
  cases houtcome : c.run m with
  | mk outcome after =>
    rw [houtcome] at hkept hend
    cases outcome with
    | ok a => exact hnext a hend after hkept
    | error f => exact ⟨hkept, hend⟩

/-- Changing the machine so that the invariant still holds. -/
theorem keeps_modify {change : Machine → Machine} (h : ∀ m, I m → I (change m)) :
    Keeps I (fun _ => True) F (modify change : Evaluation Unit) := fun m hm => ⟨h m hm, trivial⟩

/-- What depends on the machine may use that the invariant holds of it. -/
theorem keeps_get {next : Machine → Evaluation β} (h : ∀ m, I m → Keeps I Q F (next m)) :
    Keeps I Q F (get >>= next) := fun m hm => h m hm m hm

/-- A computation in a scope of its own keeps an invariant that opening and dropping a scope
keep. -/
theorem keeps_inScope {env : Nat} {body : Nat → Evaluation α}
    (hopen : ∀ m, I m → I { m with environments := m.environments.push (some env) })
    (hdrop : ∀ m, I m → I { m with environments := m.environments.pop })
    (hbody : ∀ scope, Keeps I P F (body scope)) : Keeps I P F (inScope env body) := by
  intro m hm
  obtain ⟨hkept, hend⟩ := hbody m.environments.nextNumber _ (hopen m hm)
  exact ⟨hdrop _ hkept, hend⟩

end Lisplet.Evaluation
