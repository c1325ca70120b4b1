import Lisplet.Proofs.Environment.Scopes
import Lisplet.Proofs.Evaluation.Account
import Lisplet.Proofs.Value.Shapes

/-!
# The meaning of expressions

The account of evaluating an expression, told from what names stand for. Where evaluation opens an
environment for a `let` and defines names in it, the meaning of the expression goes on with another
scope; the environments themselves do not occur. Evaluating an expression in an environment gives
its meaning in the scope that is seen from there and leaves all environments as they are.
-/

namespace Lisplet.Evaluation

variable (host : Host) (settings : Settings)

/-- The account of a list whose head symbol stands for a value: a native function is applied to the
arguments, and any other value stands for itself. -/
def applyHead (head : String) (args : Account (List Value)) : Value → Account Value
  | .native f => do
    let args ← args
    .call host head f args
  | value => return value

mutual

/-- The account of evaluating an expression in a scope, `depth` evaluations deep. -/
def meaning (scope : Scope) (depth : Nat) (expr : Value) : Account Value :=
  if settings.maxDepth < depth then .fail .tooDeep
  else match expr with
    | .symbol name => .resolve settings name (scope name)
    | .list [] => return .nil
    | .list (head :: tail) => do
      .record (.evaluating (.list (head :: tail)))
      match head with
      | .symbol name =>
        if name = "let" then meaningLet scope (depth + 1) tail
        else
          let value ← .resolve settings name (scope name)
          applyHead host name (meaningAll scope (depth + 1) tail) value
      | head => .headValue head tail
    | value => return value

/-- The account of evaluating expressions from left to right. -/
def meaningAll (scope : Scope) (depth : Nat) : List Value → Account (List Value)
  | [] => return []
  | expr :: rest => do
    let value ← meaning scope depth expr
    let values ← meaningAll scope depth rest
    return value :: values

/-- The account of the bindings of a `let` and then its body. -/
def meaningLet (scope : Scope) (depth : Nat) : List Value → Account Value
  | [] => .fail .letWithoutBody
  | [body] => meaning scope depth body
  | binding :: rest =>
    match binding with
    | .list [.symbol name, expr] => do
      let value ← meaning scope depth expr
      meaningLet (Function.update scope name value) depth rest
    | _ => .fail (.malformedBinding binding)

end

variable {host settings} {scope : Scope} {depth : Nat}

/-- Beyond the limit every expression is too deep. -/
theorem meaning_of_lt (h : settings.maxDepth < depth) (expr : Value) :
    meaning host settings scope depth expr = .fail .tooDeep := by
  unfold meaning
  rw [if_pos h]

/-- What holds of the accounts of two expressions that are both too deep holds of them at every
depth, under settings with one limit, if it holds within the limit. -/
theorem by_limit {settings' : Settings} {scope' : Scope} {expr expr' : Value}
    {R : Account Value → Account Value → Prop} (hlimit : settings'.maxDepth = settings.maxDepth)
    (hdeep : R (.fail .tooDeep) (.fail .tooDeep))
    (h : (depth : Int) ≤ settings.maxDepth →
      R (meaning host settings scope depth expr) (meaning host settings' scope' depth expr')) :
    R (meaning host settings scope depth expr) (meaning host settings' scope' depth expr') := by
  by_cases hlevel : (depth : Int) ≤ settings.maxDepth
  · exact h hlevel
  · rw [meaning_of_lt (by omega), meaning_of_lt (by omega)]
    exact hdeep

/-- What holds of the accounts of two expressions that are both too deep holds of them at every
depth if it holds within the limit. -/
theorem by_depth {scope' : Scope} {expr expr' : Value} {R : Account Value → Account Value → Prop}
    (hdeep : R (.fail .tooDeep) (.fail .tooDeep))
    (h : (depth : Int) ≤ settings.maxDepth →
      R (meaning host settings scope depth expr) (meaning host settings scope' depth expr')) :
    R (meaning host settings scope depth expr) (meaning host settings scope' depth expr') :=
  by_limit rfl hdeep h

section Shapes

variable (h : (depth : Int) ≤ settings.maxDepth)

include h

/-- A symbol means what its name stands for. -/
theorem meaning_symbol (name : String) :
    meaning host settings scope depth (.symbol name) = .resolve settings name (scope name) := by
  rw [meaning, if_neg (by omega)]

/-- The empty list means the empty value. -/
theorem meaning_empty : meaning host settings scope depth (.list []) = pure .nil := by
  rw [meaning, if_neg (by omega)]

/-- A `let` means what its bindings and its body come to. -/
theorem meaning_let (items : List Value) :
    meaning host settings scope depth (.list (.symbol "let" :: items)) =
      Account.record (.evaluating (.list (.symbol "let" :: items))) >>= fun _ =>
        meaningLet host settings scope (depth + 1) items := by
  rw [meaning, if_neg (by omega)]
  simp

/-- An application means what applying the value of its head symbol comes to. -/
theorem meaning_application {name : String} (hname : name ≠ "let") (args : List Value) :
    meaning host settings scope depth (.list (.symbol name :: args)) =
      Account.record (.evaluating (.list (.symbol name :: args))) >>= fun _ =>
        Account.resolve settings name (scope name) >>=
          applyHead host name (meaningAll host settings scope (depth + 1) args) := by
  rw [meaning, if_neg (by omega)]
  simp [hname]

/-- A list headed by no symbol applies nothing. -/
theorem meaning_headed {head : Value} (hhead : ∀ name, head ≠ .symbol name) (tail : List Value) :
    meaning host settings scope depth (.list (head :: tail)) =
      Account.record (.evaluating (.list (head :: tail))) >>= fun _ =>
        Account.headValue head tail := by
  unfold meaning
  rw [if_neg (by omega)]
  cases head with
  | symbol name => exact absurd rfl (hhead name)
  | _ => rfl

/-- Any other expression means itself. -/
theorem meaning_leaf {v : Value} (hsymbol : ∀ name, v ≠ .symbol name)
    (hlist : ∀ items, v ≠ .list items) : meaning host settings scope depth v = pure v := by
  unfold meaning
  rw [if_neg (by omega)]
  cases v with
  | symbol name => exact absurd rfl (hsymbol name)
  | list items => exact absurd rfl (hlist items)
  | _ => rfl

end Shapes

/-- The first of some expressions is evaluated before the others. -/
theorem meaningAll_cons (expr : Value) (rest : List Value) :
    meaningAll host settings scope depth (expr :: rest) =
      meaning host settings scope depth expr >>= fun value =>
        meaningAll host settings scope depth rest >>= fun values => pure (value :: values) := by
  rw [meaningAll]

/-- The body of a `let` is its last item. -/
theorem meaningLet_body (body : Value) :
    meaningLet host settings scope depth [body] = meaning host settings scope depth body := by
  rw [meaningLet]

/-- A binding changes the scope for what follows. -/
theorem meaningLet_binding (name : String) (expr : Value) {rest : List Value} (h : rest ≠ []) :
    meaningLet host settings scope depth (.list [.symbol name, expr] :: rest) =
      meaning host settings scope depth expr >>= fun value =>
        meaningLet host settings (Function.update scope name value) depth rest := by
  rw [meaningLet]
  simpa using h

/-- A malformed binding ends a `let`. -/
theorem meaningLet_malformed {binding : Value} {rest : List Value} (h : rest ≠ [])
    (hmalformed : ∀ name expr, binding ≠ .list [.symbol name, expr]) :
    meaningLet host settings scope depth (binding :: rest) =
      .fail (.malformedBinding binding) := by
  rw [meaningLet]
  · simpa using h
  · exact hmalformed

variable {es : Environments}

/-- A computation that may define names in the newest of some environments, but leaves the others as
they are, and that has an account of its own, whatever has been recorded before. -/
def GivesInNewest {α : Type} (es : Environments) (c : Evaluation α) (a : Account α) : Prop :=
  ∀ record, ∃ after, c.run ⟨es, record⟩ = (a.outcome, ⟨after, record ++ a.events.toArray⟩) ∧
    after.pop = es.pop

/-- What leaves all environments as they are leaves all but the newest. -/
theorem Gives.inNewest {α : Type} {c : Evaluation α} {a : Account α} (h : Gives es c a) :
    GivesInNewest es c a := fun record => ⟨es, h record, rfl⟩

/-- A scope that is dropped takes what is defined in it along. -/
theorem gives_inScope {α : Type} (env : Nat) {body : Nat → Evaluation α} {a : Account α}
    (h : GivesInNewest (es.push (some env)) (body es.nextNumber) a) :
    Gives es (inScope env body) a := by
  intro record
  obtain ⟨after, hrun, hpop⟩ := h record
  have hscope : (inScope env body).run ⟨es, record⟩ =
      (((body es.nextNumber).run ⟨es.push (some env), record⟩).1,
        { ((body es.nextNumber).run ⟨es.push (some env), record⟩).2 with
          environments :=
            ((body es.nextNumber).run ⟨es.push (some env), record⟩).2.environments.pop }) := rfl
  rw [hscope, hrun, hpop, Environments.pop_push]

/-- Binding a name to the value of an expression changes what the newest environment shows. -/
theorem givesInNewest_define {α : Type} {scope : Nat} (hnewest : scope + 1 = es.entries.size)
    (name : String) {c : Evaluation Value} {a : Account Value} (hc : Gives es c a)
    {next : Evaluation α} {rest : Value → Account α}
    (hnext : ∀ value, GivesInNewest (es.define scope name value) next (rest value)) :
    GivesInNewest es
      (do
        let value ← c
        updateEnvironments fun es => es.define scope name value
        next)
      (a >>= rest) := by
  intro record
  rw [run_bind, hc record]
  cases houtcome : a.outcome with
  | error f => exact ⟨es, by rw [Account.bind_of_error houtcome], rfl⟩
  | ok value =>
    obtain ⟨after, hrun, hpop⟩ := hnext value (record ++ a.events.toArray)
    refine ⟨after, ?_, hpop.trans (Environments.pop_define hnewest name value)⟩
    have hdefine : (do
        updateEnvironments fun es => es.define scope name value
        next : Evaluation α).run ⟨es, record ++ a.events.toArray⟩ =
          next.run ⟨es.define scope name value, record ++ a.events.toArray⟩ := rfl
    dsimp only
    rw [hdefine, hrun, Account.bind_of_ok houtcome]
    simp

/-- The value of a head symbol is applied to the arguments. -/
theorem gives_applyHead {head : String} {args : Evaluation (List Value)}
    {argsAccount : Account (List Value)} (hargs : Gives es args argsAccount) (value : Value) :
    Gives es
      (match value with
        | .native f => do
          let args ← args
          call host head f args
        | value => return value)
      (applyHead host head argsAccount value) := by
  cases value with
  | native f => exact hargs.bind fun args => gives_call host head f args
  | _ => exact gives_pure _

/-- Evaluating an expression, arguments, or bindings and a body gives what they mean in the scope
that is seen. -/
theorem evaluation_gives_meaning (host : Host) (settings : Settings) :
    Value.EvaluationInduction
      (fun expr => ∀ es env depth, Gives es (evaluate host settings env depth expr)
        (meaning host settings (es.lookup env) depth expr))
      (fun args => ∀ es env depth, Gives es (evaluateAll host settings env depth args)
        (meaningAll host settings (es.lookup env) depth args))
      (fun items => ∀ es scope depth, scope + 1 = es.entries.size →
        GivesInNewest es (evaluateLet host settings scope depth items)
          (meaningLet host settings (es.lookup scope) depth items)) where
  symbol name es env depth := by
    unfold evaluate meaning
    split
    · exact gives_fail _
    · exact gives_resolve settings env name
  empty es env depth := by
    unfold evaluate meaning
    split
    · exact gives_fail _
    · exact gives_pure _
  letForm items hitems es env depth := by
    unfold evaluate meaning
    split
    · exact gives_fail _
    · refine (gives_record _).bind fun _ => ?_
      simp only [↓reduceIte]
      split
      · next hempty =>
        rw [List.isEmpty_iff.mp hempty, meaningLet]
        exact gives_fail _
      · refine gives_inScope env ?_
        rw [← Environments.lookup_push]
        exact hitems _ _ _ (by simp [Environments.push, Environments.nextNumber])
  application name args hname hargs es env depth := by
    unfold evaluate meaning
    split
    · exact gives_fail _
    · refine (gives_record _).bind fun _ => ?_
      simp only [hname, ↓reduceIte]
      exact (gives_resolve settings env name).bind (gives_applyHead (hargs es env (depth + 1)))
  headed head tail hhead es env depth := by
    unfold evaluate meaning
    split
    · exact gives_fail _
    · refine (gives_record _).bind fun _ => ?_
      cases head with
      | symbol name => exact absurd rfl (hhead name)
      | _ => exact gives_headValue _ tail
  leaf v hsymbol hlist es env depth := by
    unfold evaluate meaning
    split
    · exact gives_fail _
    · cases v with
      | symbol name => exact absurd rfl (hsymbol name)
      | list items => exact absurd rfl (hlist items)
      | _ => exact gives_pure _
  nil es env depth := by
    unfold evaluateAll meaningAll
    exact gives_pure _
  cons v rest hv hrest es env depth := by
    unfold evaluateAll meaningAll
    refine (hv es env depth).bind fun value => ?_
    exact (hrest es env depth).bind fun values => gives_pure _
  bodyless es scope depth hnewest := by
    unfold evaluateLet meaningLet
    exact (gives_fail _).inNewest
  body v hv es scope depth hnewest := by
    unfold evaluateLet meaningLet
    exact (hv es scope depth).inNewest
  binding name v rest hne hv hrest es scope depth hnewest := by
    rw [meaningLet_binding name v hne, evaluateLet]
    · refine givesInNewest_define hnewest name (hv es scope depth) fun value => ?_
      rw [← Environments.lookup_define (by omega)]
      exact hrest _ scope depth (by simpa using hnewest)
    · simpa using hne
  malformed v rest hne hmalformed es scope depth hnewest := by
    rw [meaningLet_malformed hne hmalformed, evaluateLet]
    · exact (gives_fail _).inNewest
    · simpa using hne
    · exact hmalformed

/-- Evaluating an expression in an environment gives its meaning in the scope seen from there and
leaves all environments as they are. -/
theorem gives_evaluate (host : Host) (settings : Settings) (es : Environments) (env depth : Nat)
    (expr : Value) : Gives es (evaluate host settings env depth expr)
      (meaning host settings (es.lookup env) depth expr) :=
  (evaluation_gives_meaning host settings).expression expr es env depth

/-- The account of evaluating an expression is its meaning. -/
theorem account_evaluate (host : Host) (settings : Settings) (es : Environments) (env depth : Nat)
    (expr : Value) : (evaluate host settings env depth expr).account es =
      meaning host settings (es.lookup env) depth expr :=
  (gives_evaluate host settings es env depth expr).account_eq

end Lisplet.Evaluation
