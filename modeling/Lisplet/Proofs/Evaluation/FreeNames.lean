import Lisplet.Proofs.Evaluation.Meaning
import Lisplet.Proofs.Value.Free

/-!
# What evaluation depends on

Evaluation depends on its environment only through what the free names of the expression stand for
there. Neither the shape of a chain of environments nor any name that is not free in the expression
has a part in the outcome or in the events.
-/

namespace Lisplet

namespace Evaluation

open Value

variable {host : Host} {settings : Settings} {scope scope' : Scope} {depth : Nat}

/-- Scopes that agree on the names free behind a binding go on agreeing when the binding is made. -/
theorem update_congr {names : List String} {name : String}
    (h : ∀ other ∈ names.filter (· ≠ name), scope other = scope' other) (value : Value) :
    ∀ other ∈ names, Function.update scope name value other =
      Function.update scope' name value other := by
  intro other hother
  by_cases hname : other = name
  · subst hname
    rw [Function.update_self, Function.update_self]
  · rw [Function.update_of_ne hname, Function.update_of_ne hname]
    exact h other (by simp [hother, hname])

/-- An expression means the same in scopes that agree on its free names, and so do arguments and the
bindings and the body of a `let`. -/
theorem congr_on_free (host : Host) (settings : Settings) :
    EvaluationInduction
      (fun expr => ∀ scope scope' depth, (∀ name ∈ free expr, scope name = scope' name) →
        meaning host settings scope depth expr = meaning host settings scope' depth expr)
      (fun args => ∀ scope scope' depth, (∀ name ∈ freeAll args, scope name = scope' name) →
        meaningAll host settings scope depth args = meaningAll host settings scope' depth args)
      (fun items => ∀ scope scope' depth, (∀ name ∈ freeLet items, scope name = scope' name) →
        meaningLet host settings scope depth items =
          meaningLet host settings scope' depth items) where
  symbol name scope scope' depth hagree := by
    refine by_depth (R := Eq) rfl fun h => ?_
    rw [meaning_symbol h, meaning_symbol h, hagree name (by simp [free])]
  empty scope scope' depth _ := by
    refine by_depth (R := Eq) rfl fun h => ?_
    rw [meaning_empty h, meaning_empty h]
  letForm items hitems scope scope' depth hagree := by
    refine by_depth (R := Eq) rfl fun h => ?_
    rw [free_let] at hagree
    rw [meaning_let h, meaning_let h, hitems scope scope' (depth + 1) hagree]
  application name args hname hargs scope scope' depth hagree := by
    refine by_depth (R := Eq) rfl fun h => ?_
    rw [free_application hname, List.forall_mem_cons] at hagree
    rw [meaning_application h hname, meaning_application h hname, hagree.1,
      hargs scope scope' (depth + 1) hagree.2]
  headed head tail hhead scope scope' depth _ := by
    refine by_depth (R := Eq) rfl fun h => ?_
    rw [meaning_headed h hhead, meaning_headed h hhead]
  leaf v hsymbol hlist scope scope' depth _ := by
    refine by_depth (R := Eq) rfl fun h => ?_
    rw [meaning_leaf h hsymbol hlist, meaning_leaf h hsymbol hlist]
  nil scope scope' depth _ := by rw [meaningAll, meaningAll]
  cons v rest hv hrest scope scope' depth hagree := by
    rw [freeAll, List.forall_mem_append] at hagree
    rw [meaningAll_cons, meaningAll_cons, hv scope scope' depth hagree.1,
      hrest scope scope' depth hagree.2]
  bodyless scope scope' depth _ := by rw [meaningLet, meaningLet]
  body v hv scope scope' depth hagree := by
    rw [freeLet] at hagree
    rw [meaningLet_body, meaningLet_body, hv scope scope' depth hagree]
  binding name v rest hne hv hrest scope scope' depth hagree := by
    rw [freeLet_binding name v hne, List.forall_mem_append] at hagree
    rw [meaningLet_binding name v hne, meaningLet_binding name v hne,
      hv scope scope' depth hagree.1]
    congr 1
    funext value
    exact hrest _ _ depth (update_congr hagree.2 value)
  malformed v rest hne hmalformed scope scope' depth _ := by
    rw [meaningLet_malformed hne hmalformed, meaningLet_malformed hne hmalformed]

/-- Evaluating an expression in two environments in which its free names stand for the same values
comes to the same value or the same error with the same events on the way, native calls among them.
The environments may belong to different collections and have chains of any shape, and both
evaluations leave all environments as they are. -/
theorem evaluate_congr_of_free (host : Host) (settings : Settings) (expr : Value)
    (es es' : Environments) (env env' : Nat)
    (h : ∀ name ∈ expr.free, es.lookup env name = es'.lookup env' name) :
    let r := (evaluate host settings env 0 expr).run { environments := es }
    let r' := (evaluate host settings env' 0 expr).run { environments := es' }
    r.1 = r'.1 ∧ r.2.events = r'.2.events ∧
      Event.calls r.2.events.toList = Event.calls r'.2.events.toList ∧
      r.2.environments = es ∧ r'.2.environments = es' := by
  have hmeaning := (congr_on_free host settings).expression expr _ _ 0 h
  dsimp only
  rw [gives_evaluate host settings es env 0 expr #[],
    gives_evaluate host settings es' env' 0 expr #[], hmeaning]
  exact ⟨rfl, rfl, rfl, rfl, rfl⟩

/-- A `let` that shadows a name comes to the same in an environment that binds the name otherwise,
around a second environment, and in a single one that does not bind it at all. -/
theorem evaluate_congr_of_free_shadowing :
    let expr : Value := .list [.symbol "let", .list [.symbol "x", .list [.symbol "y", .symbol "y"]],
      .list [.symbol "f", .symbol "x"]]
    let around : Environments :=
      (((Environments.push {} none).define 0 "y" (.text "(")).push (some 0)).define 1 "x" .nil
    let alone : Environments := (Environments.push {} none).define 0 "y" (.text "(")
    (∀ name ∈ expr.free, around.lookup 1 name = alone.lookup 0 name) ∧
    ((evaluate ⟨fun _ _ => .ok .nil⟩ {} 1 0 expr).run { environments := around }).1 =
      ((evaluate ⟨fun _ _ => .ok .nil⟩ {} 0 0 expr).run { environments := alone }).1 := by
  intro expr around alone
  have hfree : ∀ name ∈ expr.free, around.lookup 1 name = alone.lookup 0 name := by
    have hnames : expr.free = ["y", "y", "f"] := by decide
    rw [hnames]
    simp [around, alone, Environments.lookup_eq, Environments.bindings, Environments.outer?,
      Environments.push, Environments.define, Bindings.get?, Bindings.put]
  exact ⟨hfree, (evaluate_congr_of_free _ {} expr around alone 1 0 hfree).1⟩

end Evaluation

end Lisplet
