import Lisplet.Interpreter
import Lisplet.Proofs.Evaluation.FreeNames
import Lisplet.Proofs.Evaluation.Limit
import Lisplet.Proofs.Value.Renaming

/-!
# Renaming what a `let` binds

A binding can be given another name, together with everything that it binds, and nothing comes of it
but other words in an error. The new name must not occur in the expression before: then the scopes
in which the two expressions are evaluated only ever differ in what the two names stand for.
-/

namespace Lisplet

/-- What an error is told apart by, whatever its words are. -/
def Failure.kind : Failure → ErrorKind ⊕ Fault
  | .error e => .inl e.kind
  | .fault f => .inr f

namespace Account

variable {α β : Type}

/-- Accounts of the same value, or of failures of the same kind, with the same calls of native
functions. -/
def Alike (c c' : Account α) : Prop :=
  c.outcome.mapError Failure.kind = c'.outcome.mapError Failure.kind ∧ c.calls = c'.calls

/-- An account is like itself. -/
theorem Alike.refl (c : Account α) : c.Alike c := ⟨rfl, rfl⟩

/-- Errors of one kind are alike. -/
theorem alike_fail {e e' : EvalError} (h : e.kind = e'.kind) :
    (fail e : Account α).Alike (fail e') := by
  have hkind : e.toFailure.kind = e'.toFailure.kind :=
    congrArg (fun kind : EvalErrorKind => (.inl kind.toErrorKind : ErrorKind ⊕ Fault)) h
  exact ⟨congrArg Except.error hkind, rfl⟩

/-- Outcomes that are the same up to the words of errors have the same value or failures of the same
kind. -/
theorem value_or_failures {r r' : Except Failure α}
    (h : r.mapError Failure.kind = r'.mapError Failure.kind) :
    (∃ a, r = .ok a ∧ r' = .ok a) ∨ ∃ f f', r = .error f ∧ r' = .error f' ∧ f.kind = f'.kind := by
  cases r with
  | ok a =>
    cases r' with
    | ok a' => exact Or.inl ⟨a, rfl, congrArg Except.ok (Except.ok.inj h).symm⟩
    | error f' => cases h
  | error f =>
    cases r' with
    | ok a' => cases h
    | error f' => exact Or.inr ⟨f, f', rfl, rfl, Except.error.inj h⟩

/-- Computations in turn are alike if each of them is. -/
theorem Alike.bind {c c' : Account α} {next next' : α → Account β} (hc : c.Alike c')
    (hnext : ∀ a, (next a).Alike (next' a)) : (c >>= next).Alike (c' >>= next') := by
  obtain ⟨houtcome, hcalls⟩ := hc
  obtain ⟨a, hend, hend'⟩ | ⟨f, f', hend, hend', hkind⟩ := value_or_failures houtcome
  · rw [Alike, calls_bind_of_ok hend, calls_bind_of_ok hend', bind_of_ok hend, bind_of_ok hend',
      hcalls, (hnext a).2]
    exact ⟨(hnext a).1, rfl⟩
  · rw [Alike, calls_bind_of_error hend, calls_bind_of_error hend', bind_of_error hend,
      bind_of_error hend']
    exact ⟨congrArg Except.error hkind, hcalls⟩

/-- Which list is evaluated is recorded without a call. -/
theorem Alike.after_evaluating {form form' : Value} {c c' : Account α} (h : c.Alike c') :
    (record (.evaluating form) >>= fun _ => c).Alike
      (record (.evaluating form') >>= fun _ => c') := by
  have hrecord : (record (.evaluating form)).Alike (record (.evaluating form')) := ⟨rfl, rfl⟩
  exact hrecord.bind fun _ => h

/-- It matters to the words of an error alone under which name a value is looked up. -/
theorem alike_resolve (settings : Settings) (name name' : String) (value : Value) :
    (resolve settings name value).Alike (resolve settings name' value) := by
  cases value with
  | unbound =>
    rw [resolve, resolve]
    split
    · exact ⟨rfl, rfl⟩
    · exact Alike.refl _
  | _ => exact Alike.refl _

/-- It matters to the words of an error alone under which name a function is applied. -/
theorem alike_call (host : Host) (head head' : String) (f : Native) (args : List Value) :
    (call host head f args).Alike (call host head' f args) := by
  refine ⟨?_, rfl⟩
  unfold call applied
  cases f.apply host args with
  | ok value => rfl
  | error failure =>
    cases failure with
    | error e => rfl
    | fault fault =>
      dsimp only
      by_cases hblames : fault.blamesArguments = true
      · rw [if_pos hblames, if_pos hblames]
        rfl
      · rw [if_neg hblames, if_neg hblames]

/-- Of what is behind a head that is no symbol, it matters only whether it is something. -/
theorem headValue_congr (head : Value) {tail tail' : List Value}
    (h : tail = [] ↔ tail' = []) : headValue head tail = headValue head tail' := by
  have hempty : tail.isEmpty = tail'.isEmpty := by
    rw [Bool.eq_iff_iff, List.isEmpty_iff, List.isEmpty_iff, h]
  unfold headValue
  rw [hempty]

/-- No list can be applied. -/
theorem alike_headValue_list (items items' tail tail' : List Value) :
    (headValue (.list items) tail).Alike (headValue (.list items') tail') :=
  alike_fail rfl

end Account

namespace Evaluation

open Account Value

variable {host : Host} {settings : Settings}

/-- Applying the value of a head symbol comes to the like for like arguments, under any name. -/
theorem alike_applyHead (head head' : String) {args args' : Account (List Value)}
    (h : args.Alike args') (value : Value) :
    (applyHead host head args value).Alike (applyHead host head' args' value) := by
  cases value with
  | native f => exact h.bind fun args => alike_call host head head' f args
  | _ => exact Alike.refl _

/-- A list headed by no symbol comes to the like when a name is exchanged in it. -/
theorem alike_headValue_rename {head : Value} (h : ∀ name, head ≠ .symbol name) (x z : String)
    (tail : List Value) :
    (Account.headValue head tail).Alike (.headValue (rename x z head) (renameAll x z tail)) := by
  by_cases hlist : ∃ items, head = .list items
  · obtain ⟨items, rfl⟩ := hlist
    obtain ⟨items', hrename⟩ := exists_rename_list (x := x) (z := z) items
    rw [hrename]
    exact alike_headValue_list ..
  · have hempty : tail = [] ↔ renameAll x z tail = [] := by
      rw [← List.length_eq_zero_iff, ← List.length_eq_zero_iff, length_renameAll]
    rw [rename_leaf h (not_exists.mp hlist), headValue_congr head hempty]
    exact Alike.refl _

/-- Scopes that differ at most in what two names stand for, so that the second one stands in one of
them for what the first one stands for in the other. -/
structure Renames (x z : String) (scope scope' : Scope) : Prop where
  renamed : scope' z = scope x
  others : ∀ name, name ≠ x → name ≠ z → scope' name = scope name

namespace Renames

variable {x z : String} {scope scope' : Scope}

/-- A name stands for what it is renamed to, as long as that is none of the names before. -/
theorem apply (h : Renames x z scope scope') {name : String} (hname : name ≠ z) :
    scope' (if name = x then z else name) = scope name := by
  split
  · next hx => rw [hx, h.renamed]
  · next hx => exact h.others name hx hname

/-- Binding another name makes no difference. -/
theorem update (h : Renames x z scope scope') {name : String} (hx : name ≠ x) (hz : name ≠ z)
    (value : Value) :
    Renames x z (Function.update scope name value) (Function.update scope' name value) where
  renamed := by rw [Function.update_of_ne hz.symm, Function.update_of_ne hx.symm, h.renamed]
  others other hother hother' := by
    by_cases hname : other = name
    · rw [hname, Function.update_self, Function.update_self]
    · rw [Function.update_of_ne hname, Function.update_of_ne hname, h.others other hother hother']

/-- When the first name is bound again, the second one alone makes a difference. -/
theorem update_agree (h : Renames x z scope scope') {name : String} (hname : name ≠ z)
    (value : Value) : Function.update scope x value name = Function.update scope' x value name := by
  by_cases hx : name = x
  · rw [hx, Function.update_self, Function.update_self]
  · rw [Function.update_of_ne hx, Function.update_of_ne hx, h.others name hx hname]

/-- Binding one name or the other. -/
theorem of_update (scope : Scope) (x z : String) (value : Value) :
    Renames x z (Function.update scope x value) (Function.update scope z value) where
  renamed := by rw [Function.update_self, Function.update_self]
  others other hx hz := by rw [Function.update_of_ne hx, Function.update_of_ne hz]

end Renames

variable {x z : String}

/-- Accounts of two expressions are alike if they are within the depth limit. -/
theorem alike_by_depth {scope scope' : Scope} {depth : Nat} {expr expr' : Value}
    (h : (depth : Int) ≤ settings.maxDepth →
      (meaning host settings scope depth expr).Alike (meaning host settings scope' depth expr')) :
    (meaning host settings scope depth expr).Alike (meaning host settings scope' depth expr') :=
  by_depth (R := Alike) (Alike.refl _) h

/-- An expression comes to the like when a name is exchanged in it and in its scope, for one that
does not occur in it; and so do arguments and the bindings and the body of a `let`. -/
theorem alike_rename (host : Host) (settings : Settings) (x : String) {z : String}
    (hlet : z ≠ "let") :
    EvaluationInduction
      (fun expr => expr.Lacks z → ∀ scope scope' depth, Renames x z scope scope' →
        (meaning host settings scope depth expr).Alike
          (meaning host settings scope' depth (rename x z expr)))
      (fun args => (∀ v ∈ args, v.Lacks z) → ∀ scope scope' depth, Renames x z scope scope' →
        (meaningAll host settings scope depth args).Alike
          (meaningAll host settings scope' depth (renameAll x z args)))
      (fun items => (∀ v ∈ items, v.Lacks z) → ∀ scope scope' depth, Renames x z scope scope' →
        (meaningLet host settings scope depth items).Alike
          (meaningLet host settings scope' depth (renameLet x z items))) where
  symbol name hlacks scope scope' depth hscopes := by
    refine alike_by_depth fun h => ?_
    rw [rename, meaning_symbol h, meaning_symbol h, hscopes.apply (lacks_symbol.mp hlacks)]
    exact alike_resolve ..
  empty _ scope scope' depth _ := by
    refine alike_by_depth fun h => ?_
    rw [rename_empty, meaning_empty h, meaning_empty h]
    exact Alike.refl _
  letForm items hitems hlacks scope scope' depth hscopes := by
    rw [lacks_list, List.forall_mem_cons] at hlacks
    refine alike_by_depth fun h => ?_
    rw [rename_let, meaning_let h, meaning_let h]
    exact (hitems hlacks.2 scope scope' (depth + 1) hscopes).after_evaluating
  application name args hname hargs hlacks scope scope' depth hscopes := by
    rw [lacks_list, List.forall_mem_cons, lacks_symbol] at hlacks
    refine alike_by_depth fun h => ?_
    have hname' : (if name = x then z else name) ≠ "let" := by
      split
      · exact hlet
      · exact hname
    rw [rename_application hname, meaning_application h hname, meaning_application h hname',
      hscopes.apply hlacks.1]
    refine ((alike_resolve ..).bind fun value => ?_).after_evaluating
    exact alike_applyHead _ _ (hargs hlacks.2 scope scope' (depth + 1) hscopes) value
  headed head tail hhead _ scope scope' depth _ := by
    refine alike_by_depth fun h => ?_
    rw [rename_headed hhead, meaning_headed h hhead, meaning_headed h (rename_ne_symbol hhead)]
    exact (alike_headValue_rename hhead x z tail).after_evaluating
  leaf v hsymbol hlist _ scope scope' depth _ := by
    refine alike_by_depth fun h => ?_
    rw [rename_leaf hsymbol hlist, meaning_leaf h hsymbol hlist, meaning_leaf h hsymbol hlist]
    exact Alike.refl _
  nil _ scope scope' depth _ := by
    rw [renameAll, meaningAll, meaningAll]
    exact Alike.refl _
  cons v rest hv hrest hlacks scope scope' depth hscopes := by
    rw [List.forall_mem_cons] at hlacks
    rw [renameAll, meaningAll_cons, meaningAll_cons]
    refine (hv hlacks.1 scope scope' depth hscopes).bind fun value => ?_
    exact (hrest hlacks.2 scope scope' depth hscopes).bind fun values => Alike.refl _
  bodyless _ scope scope' depth _ := by
    rw [renameLet, meaningLet, meaningLet]
    exact Alike.refl _
  body v hv hlacks scope scope' depth hscopes := by
    rw [renameLet, meaningLet_body, meaningLet_body]
    exact hv (hlacks v List.mem_cons_self) scope scope' depth hscopes
  binding name v rest hne hv hrest hlacks scope scope' depth hscopes := by
    simp only [List.forall_mem_cons, lacks_list, lacks_symbol] at hlacks
    obtain ⟨⟨hz, hlacksExpr, -⟩, hlacksRest⟩ := hlacks
    rw [renameLet_binding name v hne, meaningLet_binding name v hne, meaningLet_binding]
    · refine (hv hlacksExpr scope scope' depth hscopes).bind fun value => ?_
      by_cases hx : name = x
      · -- what follows belongs to this binding, and `z` is not free in it
        subst hx
        rw [if_pos rfl]
        have hcongr := (congr_on_free host settings).items rest _ _ depth fun other hother =>
          hscopes.update_agree (fun hother' => not_mem_freeLet hlacksRest (hother' ▸ hother)) value
        rw [hcongr]
        exact Alike.refl _
      · rw [if_neg hx]
        exact hrest hlacksRest _ _ depth (hscopes.update hx hz value)
    · split
      · exact hne
      · exact renameLet_ne_nil hne
  malformed v rest hne hmalformed _ scope scope' depth _ := by
    rw [renameLet_malformed hne hmalformed, meaningLet_malformed hne hmalformed,
      meaningLet_malformed (renameLet_ne_nil hne) (rename_malformed hmalformed)]
    exact alike_fail rfl

/-- What follows some bindings of a `let` can be exchanged for the like. -/
theorem alike_behind_bindings {rest rest' : List Value} (hne : rest ≠ []) (hne' : rest' ≠ [])
    {depth : Nat} (h : ∀ scope, (meaningLet host settings scope depth rest).Alike
      (meaningLet host settings scope depth rest')) (before : List Value) (scope : Scope) :
    (meaningLet host settings scope depth (before ++ rest)).Alike
      (meaningLet host settings scope depth (before ++ rest')) := by
  induction before generalizing scope with
  | nil => exact h scope
  | cons binding before ih =>
    have hnext : before ++ rest ≠ [] := List.append_ne_nil_of_right_ne_nil before hne
    have hnext' : before ++ rest' ≠ [] := List.append_ne_nil_of_right_ne_nil before hne'
    rw [List.cons_append, List.cons_append]
    obtain ⟨name, expr, rfl⟩ | hmalformed := binding_or_malformed binding
    · rw [meaningLet_binding name expr hnext, meaningLet_binding name expr hnext']
      exact (Alike.refl _).bind fun value => ih _
    · rw [meaningLet_malformed hnext hmalformed, meaningLet_malformed hnext' hmalformed]
      exact Alike.refl _

/-- An argument can be exchanged for the like. -/
theorem alike_among_arguments {scope : Scope} {depth : Nat} {item item' : Value}
    (h : (meaning host settings scope depth item).Alike (meaning host settings scope depth item'))
    (before after : List Value) :
    (meaningAll host settings scope depth (before ++ item :: after)).Alike
      (meaningAll host settings scope depth (before ++ item' :: after)) := by
  induction before with
  | nil =>
    rw [List.nil_append, List.nil_append, meaningAll_cons, meaningAll_cons]
    exact h.bind fun value => Alike.refl _
  | cons first before ih =>
    rw [List.cons_append, List.cons_append, meaningAll_cons, meaningAll_cons]
    exact (Alike.refl _).bind fun value => ih.bind fun values => Alike.refl _

/-- A binding that is renamed together with everything that it binds comes to the like. -/
theorem alike_renamed_binding (hlet : z ≠ "let") (expr : Value) {after : List Value}
    (hne : after ≠ []) (hlacks : ∀ v ∈ after, v.Lacks z) (scope : Scope) (depth : Nat) :
    (meaningLet host settings scope depth (.list [.symbol x, expr] :: after)).Alike
      (meaningLet host settings scope depth
        (.list [.symbol z, expr] :: renameLet x z after)) := by
  rw [meaningLet_binding x expr hne, meaningLet_binding z expr (renameLet_ne_nil hne)]
  exact (Alike.refl _).bind fun value =>
    (alike_rename host settings x hlet).items after hlacks _ _ depth (Renames.of_update ..)

/-- Expressions that can be exchanged for one another, also among the bindings of a `let`. -/
structure Exchangeable (host : Host) (settings : Settings) (expr expr' : Value) : Prop where
  alone : ∀ scope depth, (meaning host settings scope depth expr).Alike
    (meaning host settings scope depth expr')
  asBinding : ∀ scope depth rest, rest ≠ [] →
    (meaningLet host settings scope depth (expr :: rest)).Alike
      (meaningLet host settings scope depth (expr' :: rest))

namespace Exchangeable

variable {item item' : Value}

/-- Lists that are no bindings can be exchanged when their accounts are alike. -/
theorem of_malformed {expr expr' : Value}
    (halone : ∀ scope depth, (meaning host settings scope depth expr).Alike
      (meaning host settings scope depth expr'))
    (hmalformed : ∀ name bound, expr ≠ .list [.symbol name, bound])
    (hmalformed' : ∀ name bound, expr' ≠ .list [.symbol name, bound]) :
    Exchangeable host settings expr expr' where
  alone := halone
  asBinding scope depth rest hne := by
    rw [meaningLet_malformed hne hmalformed, meaningLet_malformed hne hmalformed']
    exact alike_fail rfl

/-- What can be exchanged can be exchanged among the bindings of a `let`, or as its body. -/
theorem items (h : Exchangeable host settings item item') (before after : List Value)
    (scope : Scope) (depth : Nat) :
    (meaningLet host settings scope depth (before ++ item :: after)).Alike
      (meaningLet host settings scope depth (before ++ item' :: after)) := by
  refine alike_behind_bindings (by simp) (by simp) (fun scope => ?_) before scope
  cases after with
  | nil =>
    rw [meaningLet_body, meaningLet_body]
    exact h.alone scope depth
  | cons next after => exact h.asBinding scope depth (next :: after) (by simp)

/-- What can be exchanged can be exchanged as an item of any list. -/
theorem inside_alone (h : Exchangeable host settings item item')
    (hlist : ∃ items, item = .list items) (hlist' : ∃ items, item' = .list items)
    (before after : List Value) (scope : Scope) (depth : Nat) :
    (meaning host settings scope depth (.list (before ++ item :: after))).Alike
      (meaning host settings scope depth (.list (before ++ item' :: after))) := by
  refine alike_by_depth fun hlevel => ?_
  cases before with
  | nil =>
    obtain ⟨items, rfl⟩ := hlist
    obtain ⟨items', rfl⟩ := hlist'
    rw [List.nil_append, List.nil_append, meaning_headed hlevel (by simp),
      meaning_headed hlevel (by simp)]
    exact (alike_headValue_list ..).after_evaluating
  | cons head before =>
    rw [List.cons_append, List.cons_append]
    by_cases hhead : ∃ name, head = .symbol name
    · obtain ⟨name, rfl⟩ := hhead
      by_cases hname : name = "let"
      · subst hname
        rw [meaning_let hlevel, meaning_let hlevel]
        exact (h.items before after scope (depth + 1)).after_evaluating
      · rw [meaning_application hlevel hname, meaning_application hlevel hname]
        refine ((Alike.refl _).bind fun value => ?_).after_evaluating
        exact alike_applyHead _ _
          (alike_among_arguments (h.alone scope (depth + 1)) before after) value
    · have hempty : before ++ item :: after = [] ↔ before ++ item' :: after = [] := by simp
      rw [meaning_headed hlevel (not_exists.mp hhead), meaning_headed hlevel (not_exists.mp hhead),
        headValue_congr head hempty]
      exact (Alike.refl _).after_evaluating

/-- Lists can be exchanged when they differ in an item that can be exchanged. -/
theorem inside (h : Exchangeable host settings item item') (hlist : ∃ items, item = .list items)
    (hlist' : ∃ items, item' = .list items) (before after : List Value) :
    Exchangeable host settings (.list (before ++ item :: after))
      (.list (before ++ item' :: after)) := by
  have halone := h.inside_alone hlist hlist' before after
  have hsymbol : ∀ name, item ≠ .symbol name := by
    obtain ⟨items, rfl⟩ := hlist
    simp
  have hsymbol' : ∀ name, item' ≠ .symbol name := by
    obtain ⟨items, rfl⟩ := hlist'
    simp
  obtain ⟨name, bound, hbinding⟩ | hmalformed :=
    binding_or_malformed (.list (before ++ item :: after))
  · rw [list.injEq, append_cons_eq_pair hsymbol] at hbinding
    obtain ⟨rfl, rfl, rfl⟩ := hbinding
    refine ⟨halone, fun scope depth rest hne => ?_⟩
    simp only [List.cons_append, List.nil_append]
    rw [meaningLet_binding name item hne, meaningLet_binding name item' hne]
    exact (h.alone scope depth).bind fun value => Alike.refl _
  · refine of_malformed halone hmalformed fun name bound hbinding => ?_
    rw [list.injEq, append_cons_eq_pair hsymbol'] at hbinding
    obtain ⟨rfl, -, rfl⟩ := hbinding
    exact hmalformed name item rfl

/-- With a binding renamed anywhere inside it, an expression comes to the like. -/
theorem of_renamesBinding (hlet : z ≠ "let") {expr renamed : Value}
    (h : RenamesBinding x z expr renamed) (hlacks : expr.Lacks z) :
    Exchangeable host settings expr renamed := by
  induction h with
  | here before bound after hne =>
    have hafter : ∀ v ∈ after, v.Lacks z := fun v hv =>
      lacks_list.mp hlacks v (by simp [hv])
    refine of_malformed (fun scope depth => alike_by_depth fun hlevel => ?_) ?_ ?_
    · rw [meaning_let hlevel, meaning_let hlevel]
      refine Alike.after_evaluating (alike_behind_bindings (by simp) (by simp) (fun scope => ?_)
        before scope)
      exact alike_renamed_binding hlet bound hne hafter scope (depth + 1)
    -- with something behind its binding, the `let` is too long to be a binding itself
    · intro name item hbinding
      rw [list.injEq, ← List.cons_append, append_cons_eq_pair (by simp)] at hbinding
      exact hne hbinding.2.2
    · intro name item hbinding
      rw [list.injEq, ← List.cons_append, append_cons_eq_pair (by simp)] at hbinding
      exact renameLet_ne_nil hne hbinding.2.2
  | inside before after h ih =>
    obtain ⟨hlist, hlist'⟩ := h.exists_list
    exact (ih (lacks_list.mp hlacks _ (by simp))).inside hlist hlist' before after

end Exchangeable

/-- Renaming a binding of any `let` inside an expression, with exactly what it binds, to a name that
occurs nowhere in the expression changes neither the value nor the calls of native functions that
evaluation comes to, whatever the environment and the settings. A failure stays one of the same
kind. -/
theorem evaluate_rename_binding (host : Host) (settings : Settings) {expr renamed : Value}
    (h : RenamesBinding x z expr renamed) (hlacks : expr.Lacks z) (es : Environments) (env : Nat) :
    let r := (evaluate host settings env 0 expr).run { environments := es }
    let r' := (evaluate host settings env 0 renamed).run { environments := es }
    r.1.mapError Failure.kind = r'.1.mapError Failure.kind ∧
      Event.calls r.2.events.toList = Event.calls r'.2.events.toList ∧
      r.2.environments = es ∧ r'.2.environments = es := by
  have hexchangeable : Exchangeable host settings expr renamed :=
    .of_renamesBinding (h.ne_let hlacks) h hlacks
  obtain ⟨houtcome, hcalls⟩ := hexchangeable.alone (es.lookup env) 0
  dsimp only
  rw [gives_evaluate host settings es env 0 expr #[],
    gives_evaluate host settings es env 0 renamed #[]]
  rw [Array.empty_append, Array.empty_append]
  exact ⟨houtcome, hcalls, rfl, rfl⟩

/-- The second of two bindings of a name, whose expression still sees the first one and which an
inner `let` shadows again, is renamed apart from both. -/
theorem evaluate_rename_binding_shadowed :
    let listed (name : String) : Value := .list [.symbol "list", .symbol name]
    let inner (name : String) : Value :=
      .list [.symbol "let", .list [.symbol "x", .symbol name], .symbol "x"]
    let expr : Value := .list [.symbol "let", .list [.symbol "x", .text "("],
      .list [.symbol "x", listed "x"], .list [.symbol "list", .symbol "x", inner "x"]]
    let renamed : Value := .list [.symbol "let", .list [.symbol "x", .text "("],
      .list [.symbol "y", listed "x"], .list [.symbol "list", .symbol "y", inner "y"]]
    let es := (Interpreter.new {}).environments
    let r := (evaluate ⟨fun _ _ => .ok .nil⟩ {} 0 0 expr).run { environments := es }
    let r' := (evaluate ⟨fun _ _ => .ok .nil⟩ {} 0 0 renamed).run { environments := es }
    RenamesBinding "x" "y" expr renamed ∧ expr.Lacks "y" ∧
      r.1.mapError Failure.kind = r'.1.mapError Failure.kind := by
  intro listed inner expr renamed es r r'
  have hrenames : RenamesBinding "x" "y" expr renamed :=
    .here [.list [.symbol "x", .text "("]] (listed "x") [.list [.symbol "list", .symbol "x",
      inner "x"]] (by simp)
  have hlacks : expr.Lacks "y" := by
    simp [expr, listed, inner, Lacks, leaves_leaf]
  exact ⟨hrenames, hlacks, (evaluate_rename_binding _ {} hrenames hlacks es 0).1⟩

end Evaluation

end Lisplet
