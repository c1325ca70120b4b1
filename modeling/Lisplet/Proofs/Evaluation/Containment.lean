import Lisplet.Proofs.Evaluation.Meaning
import Lisplet.Proofs.Native.Results
import Lisplet.Proofs.Value.Leaves

/-!
# What evaluation can come to

Evaluation makes no values of its own but the empty one and the marker of an unbound name; all
others it takes from the expression and the environment, or from the native functions that it calls.
So what holds of these holds of every value that it comes to, and its failures are its own errors
and those of the functions. With the builtin functions alone, evaluation never leaves the language.
-/

namespace Lisplet

namespace Account

variable {α β : Type} {P : α → Prop} {Q : β → Prop} {F : Failure → Prop}
  {C : Native × List Value → Prop}

/-- An account of a value or a failure with certain properties, in which only calls with a certain
property are made. -/
structure ComesTo (P : α → Prop) (F : Failure → Prop) (C : Native × List Value → Prop)
    (c : Account α) : Prop where
  value : ∀ a, c.outcome = .ok a → P a
  failure : ∀ f, c.outcome = .error f → F f
  calls : ∀ call ∈ c.calls, C call

/-- The account of a value. -/
theorem comesTo_pure {a : α} (h : P a) : (pure a : Account α).ComesTo P F C where
  value _ hvalue := Except.ok.inj hvalue ▸ h
  failure _ hfailure := nomatch hfailure
  calls := List.forall_mem_nil _

/-- The account of an evaluation error. -/
theorem comesTo_fail {e : EvalError} (h : F e.toFailure) :
    (fail e : Account α).ComesTo P F C where
  value _ hvalue := nomatch hvalue
  failure _ hfailure := Except.error.inj hfailure ▸ h
  calls := List.forall_mem_nil _

/-- The account of a single call. -/
theorem comesTo_call {host : Host} {head : String} {f : Native} {args : List Value}
    {P : Value → Prop} (hcall : C (f, args))
    (h : (∃ v, applied host head f args = .ok v ∧ P v) ∨
      ∃ failure, applied host head f args = .error failure ∧ F failure) :
    (call host head f args).ComesTo P F C where
  value v hv := by
    obtain ⟨v', hv', hP⟩ | ⟨failure, hfailure, -⟩ := h
    · cases hv.symm.trans hv'
      exact hP
    · cases hv.symm.trans hfailure
  failure failure hfailure := by
    obtain ⟨v, hv, -⟩ | ⟨failure', hfailure', hF⟩ := h
    · cases hfailure.symm.trans hv
    · cases hfailure.symm.trans hfailure'
      exact hF
  calls := List.forall_mem_singleton.mpr hcall

/-- What goes on from a value may use what holds of it. -/
theorem ComesTo.bind {c : Account α} {next : α → Account β} (hc : c.ComesTo P F C)
    (hnext : ∀ a, P a → (next a).ComesTo Q F C) : (c >>= next).ComesTo Q F C := by
  cases houtcome : c.outcome with
  | error f =>
    refine ⟨fun b hb => ?_, fun f' hf' => ?_, ?_⟩
    · rw [bind_of_error houtcome] at hb
      cases hb
    · rw [bind_of_error houtcome] at hf'
      cases hf'
      exact hc.failure f houtcome
    · rw [calls_bind_of_error houtcome]
      exact hc.calls
  | ok a =>
    obtain ⟨hvalue, hfailure, hcalls⟩ := hnext a (hc.value a houtcome)
    refine ⟨fun b hb => hvalue b ?_, fun f hf => hfailure f ?_, ?_⟩
    · rwa [bind_of_ok houtcome] at hb
    · rwa [bind_of_ok houtcome] at hf
    · rw [calls_bind_of_ok houtcome]
      exact List.forall_mem_append.mpr ⟨hc.calls, hcalls⟩

/-- That a list is evaluated is recorded without a call. -/
theorem ComesTo.after_evaluating {c : Account α} (h : c.ComesTo P F C) (form : Value) :
    (record (.evaluating form) >>= fun _ => c).ComesTo P F C := ⟨h.value, h.failure, h.calls⟩

end Account

namespace Value

variable {P : Value → Prop}

/-- Whether the leaves of an expression that are no symbols have a property. -/
def Literals (P : Value → Prop) (v : Value) : Prop :=
  v.Leaves fun leaf => (∀ name, leaf ≠ .symbol name) → P leaf

/-- The literals in a list are those in its items. -/
theorem literals_list {items : List Value} :
    (Value.list items).Literals P ↔ ∀ v ∈ items, v.Literals P := leaves_list

/-- An expression without parts is a literal unless it is a symbol. -/
theorem Literals.of_leaf {v : Value} (h : v.Literals P) (hsymbol : ∀ name, v ≠ .symbol name)
    (hlist : ∀ items, v ≠ .list items) : P v := (leaves_leaf hlist).mp h hsymbol

end Value

namespace Evaluation

open Account Value

/-- Properties of values, failures and calls that evaluation does not lead out of, as far as it
depends on the native functions and on the errors of evaluation itself. -/
structure Confines (host : Host) (settings : Settings) (P : Value → Prop) (F : Failure → Prop)
    (C : Native × List Value → Prop) : Prop where
  nil : P .nil
  unbound : settings.strictUnbound = false → P .unbound
  evaluation : ∀ e : EvalError, e.kind = .evaluation → F e.toFailure
  strict : settings.strictUnbound = true → ∀ name, F (EvalError.unbound name).toFailure
  call : ∀ head f args, P (.native f) → (∀ v ∈ args, P v) →
    (Account.call host head f args).ComesTo P F C

namespace Confines

variable {host : Host} {settings : Settings} {P : Value → Prop} {F : Failure → Prop}
  {C : Native × List Value → Prop}

/-- The value of a name has the property if all bound values do. -/
theorem resolve (h : Confines host settings P F C) (name : String) {value : Value}
    (hvalue : value = .unbound ∨ P value) :
    (Account.resolve settings name value).ComesTo P F C := by
  unfold Account.resolve
  split
  · split
    · next hstrict => exact comesTo_fail (h.strict hstrict name)
    · next hstrict => exact comesTo_pure (h.unbound (by simpa using hstrict))
  · next hbound => exact comesTo_pure (hvalue.resolve_left hbound)

/-- What the value of a head symbol comes to has the property if the arguments do. -/
theorem applyHead (h : Confines host settings P F C) (head : String) {args : Account (List Value)}
    (hargs : args.ComesTo (fun values => ∀ v ∈ values, P v) F C) {value : Value} (hvalue : P value) :
    (applyHead host head args value).ComesTo P F C := by
  cases value with
  | native f => exact hargs.bind fun values hvalues => h.call head f values hvalue hvalues
  | _ => exact comesTo_pure hvalue

/-- Beyond the depth limit there is an error of evaluation. -/
theorem by_depth (h : Confines host settings P F C) {scope : Scope} {depth : Nat} {expr : Value}
    (hwithin : (depth : Int) ≤ settings.maxDepth →
      (meaning host settings scope depth expr).ComesTo P F C) :
    (meaning host settings scope depth expr).ComesTo P F C := by
  by_cases hlevel : (depth : Int) ≤ settings.maxDepth
  · exact hwithin hlevel
  · rw [meaning_of_lt (by omega)]
    exact comesTo_fail (h.evaluation _ rfl)

/-- A list that applies nothing comes to its head, which then is no list. -/
theorem headValue (h : Confines host settings P F C) {head : Value}
    (hhead : (∀ items, head ≠ .list items) → P head) (tail : List Value) :
    (Account.headValue head tail).ComesTo P F C := by
  obtain ⟨hlist, hpure⟩ | ⟨e, hkind, hfail⟩ := headValue_pure_or_fail head tail
  · rw [hpure]
    exact comesTo_pure (hhead hlist)
  · rw [hfail]
    exact comesTo_fail (h.evaluation e hkind)

variable (h : Confines host settings P F C)

include h

/-- Evaluating an expression whose literals have the property comes to nothing else in a scope whose
values have it, and so do arguments and the bindings and the body of a `let`. -/
theorem comesTo :
    EvaluationInduction
      (fun expr => expr.Literals P → ∀ scope depth,
        (∀ name, scope name = .unbound ∨ P (scope name)) →
        (meaning host settings scope depth expr).ComesTo P F C)
      (fun args => (∀ v ∈ args, v.Literals P) → ∀ scope depth,
        (∀ name, scope name = .unbound ∨ P (scope name)) →
        (meaningAll host settings scope depth args).ComesTo (fun values => ∀ v ∈ values, P v) F C)
      (fun items => (∀ v ∈ items, v.Literals P) → ∀ scope depth,
        (∀ name, scope name = .unbound ∨ P (scope name)) →
        (meaningLet host settings scope depth items).ComesTo P F C) where
  symbol name _ scope depth hscope := by
    refine h.by_depth fun hlevel => ?_
    rw [meaning_symbol hlevel]
    exact h.resolve name (hscope name)
  empty _ scope depth _ := by
    refine h.by_depth fun hlevel => ?_
    rw [meaning_empty hlevel]
    exact comesTo_pure h.nil
  letForm items hitems hliterals scope depth hscope := by
    rw [literals_list, List.forall_mem_cons] at hliterals
    refine h.by_depth fun hlevel => ?_
    rw [meaning_let hlevel]
    exact (hitems hliterals.2 scope (depth + 1) hscope).after_evaluating _
  application name args hname hargs hliterals scope depth hscope := by
    rw [literals_list, List.forall_mem_cons] at hliterals
    refine h.by_depth fun hlevel => ?_
    rw [meaning_application hlevel hname]
    refine ((h.resolve name (hscope name)).bind fun value hvalue => ?_).after_evaluating _
    exact h.applyHead name (hargs hliterals.2 scope (depth + 1) hscope) hvalue
  headed head tail hhead hliterals scope depth _ := by
    rw [literals_list, List.forall_mem_cons] at hliterals
    refine h.by_depth fun hlevel => ?_
    rw [meaning_headed hlevel hhead]
    exact (h.headValue (fun hlist => hliterals.1.of_leaf hhead hlist) tail).after_evaluating _
  leaf v hsymbol hlist hliterals scope depth _ := by
    refine h.by_depth fun hlevel => ?_
    rw [meaning_leaf hlevel hsymbol hlist]
    exact comesTo_pure (hliterals.of_leaf hsymbol hlist)
  nil _ scope depth _ := by
    rw [meaningAll]
    exact comesTo_pure (by simp)
  cons v rest hv hrest hliterals scope depth hscope := by
    rw [List.forall_mem_cons] at hliterals
    rw [meaningAll_cons]
    refine (hv hliterals.1 scope depth hscope).bind fun value hvalue => ?_
    refine (hrest hliterals.2 scope depth hscope).bind fun values hvalues => ?_
    exact comesTo_pure (List.forall_mem_cons.mpr ⟨hvalue, hvalues⟩)
  bodyless _ scope depth _ := by
    rw [meaningLet]
    exact comesTo_fail (h.evaluation _ rfl)
  body v hv hliterals scope depth hscope := by
    rw [meaningLet_body]
    exact hv (hliterals v List.mem_cons_self) scope depth hscope
  binding name v rest hne hv hrest hliterals scope depth hscope := by
    rw [List.forall_mem_cons, literals_list] at hliterals
    rw [meaningLet_binding name v hne]
    refine (hv (hliterals.1 v (by simp)) scope depth hscope).bind fun value hvalue => ?_
    refine hrest hliterals.2 _ depth ?_
    exact (Function.forall_update_iff scope fun _ v => v = .unbound ∨ P v).mpr
      ⟨Or.inr hvalue, fun other _ => hscope other⟩
  malformed v rest hne hmalformed _ scope depth _ := by
    rw [meaningLet_malformed hne hmalformed]
    exact comesTo_fail (h.evaluation _ rfl)

end Confines

end Evaluation

end Lisplet
