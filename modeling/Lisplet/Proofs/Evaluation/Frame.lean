import Lisplet.Proofs.Evaluation.Meaning

/-!
# What evaluation leaves as it is

Evaluation writes only into environments that it has made itself, one for each `let`. All that there
were before have the same bindings in the same order afterwards, and the same environments around
them, whatever the evaluation comes to and wherever it is broken off. That does not rest on scopes
being dropped: right before one is dropped, nothing but that scope differs.
-/

namespace Lisplet

namespace Environments

/-- What a collection is without its newest environment, it is at every older one. -/
theorem entries_of_pop_eq {es es' : Environments} (h : es'.pop = es) {e : Nat}
    (he : e < es.entries.size) : es'.entries[e]? = es.entries[e]? := by
  subst h
  have hlt : e < es'.entries.size - 1 := by simpa [pop] using he
  rw [pop, Array.getElem?_pop, if_pos hlt]

end Environments

namespace Evaluation

variable (host : Host) (settings : Settings)

/-- The bindings and the body of a `let` change nothing but the scope made for it. -/
theorem entries_evaluateLet (m : Machine) (env depth : Nat) (items : List Value) {e : Nat}
    (he : e < m.environments.entries.size) :
    ((evaluateLet host settings m.environments.nextNumber depth items).run
        { m with environments := m.environments.push (some env) }).2.environments.entries[e]? =
      m.environments.entries[e]? := by
  have hnewest : m.environments.nextNumber + 1 =
      (m.environments.push (some env)).entries.size := by
    simp [Environments.push, Environments.nextNumber]
  obtain ⟨after, hrun, hpop⟩ := (evaluation_gives_meaning host settings).items items
    (m.environments.push (some env)) m.environments.nextNumber depth hnewest m.events
  rw [Environments.pop_push] at hpop
  rw [hrun]
  exact Environments.entries_of_pop_eq hpop he

/-- Evaluating an expression, however it ends, leaves every environment with its bindings in their
order and with the one around it, and makes none that stays. While it evaluates the bindings and the
body of a `let`, all environments but the scope of the `let` are already what they will be. -/
theorem environments_evaluate (m : Machine) (env depth : Nat) (expr : Value)
    (items : List Value) :
    let before := m.environments
    let after := ((evaluate host settings env depth expr).run m).2.environments
    let inside := ((evaluateLet host settings before.nextNumber depth items).run
      { m with environments := before.push (some env) }).2.environments
    after.entries.size = before.entries.size ∧
    (∀ e, after.bindings e = before.bindings e ∧ after.outer? e = before.outer? e) ∧
    ∀ e < before.entries.size,
      inside.bindings e = before.bindings e ∧ inside.outer? e = before.outer? e := by
  intro before after inside
  have hafter : after = before := congrArg (fun r => r.2.environments)
    (gives_evaluate host settings before env depth expr m.events)
  refine ⟨by rw [hafter], fun e => by rw [hafter]; exact ⟨rfl, rfl⟩, fun e he => ?_⟩
  have hentry : inside.entries[e]? = before.entries[e]? :=
    entries_evaluateLet host settings m env depth items he
  rw [Environments.bindings, Environments.outer?, hentry]
  exact ⟨rfl, rfl⟩

/-- A malformed `let` that has already bound a name of the environment around it: the binding is in
the scope, which is the second environment, and the first keeps what it had. -/
theorem environments_evaluate_malformed_let :
    let es := (Environments.push {} none).define 0 "x" (.text "outer")
    let items : List Value :=
      [.list [.symbol "x", .text "inner"], .list [.symbol "y"], .symbol "x"]
    let inside := (evaluateLet ⟨fun _ args => .ok (.list args)⟩ {} es.nextNumber 1 items).run
      { environments := es.push (some 0) }
    inside.1 = .error (EvalError.malformedBinding (.list [.symbol "y"])).toFailure ∧
    inside.2.environments.bindings 1 = [("x", .text "inner")] ∧
    0 < es.entries.size ∧ inside.2.environments.bindings 0 = es.bindings 0 := by
  intro es items inside
  obtain ⟨-, -, hinside⟩ :=
    environments_evaluate ⟨fun _ args => .ok (.list args)⟩ {} { environments := es } 0 1
      (.list (.symbol "let" :: items)) items
  exact ⟨rfl, rfl, by decide, (hinside 0 (by decide)).1⟩

end Evaluation

end Lisplet
