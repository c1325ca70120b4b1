import Lisplet.Proofs.Evaluation.Meaning

/-!
# Who calls

Every call of a native function is made by an application, under its head symbol. No application and
no `let` goes on from a failure of a function or changes it on the way out, so all the calls of an
evaluation but the last come to values, and a fault is reported under the head symbol of the
application that made the call, wherever in the expression that application stands.
-/

namespace Lisplet

/-- An application that calls a native function: its head symbol, the function that the symbol
stands for, and the values of the arguments. -/
structure Application where
  head : String
  function : Native
  args : List Value

namespace Application

/-- The call that an application makes, as it is recorded. -/
def call (a : Application) : Native × List Value := (a.function, a.args)

/-- Whether the call of an application comes to a value. -/
def Succeeds (host : Host) (a : Application) : Prop :=
  ∃ value, a.function.apply host a.args = .ok value

end Application

/-- A failure of a native function as it leaves an application with a certain head symbol. -/
def Failure.under (head : String) : Failure → Failure
  | .fault f => if f.blamesArguments then (EvalError.nativeFault head f).toFailure else .fault f
  | .error e => .error e

namespace Failure

variable {head : String}

/-- A fault that blames the arguments leaves an application as an error that names the symbol. -/
theorem under_fault {f : Fault} (h : f.family ≠ .other) :
    (fault f).under head = (EvalError.nativeFault head f).toFailure := by
  simp [under, Fault.blamesArguments, h]

/-- Any other failure leaves an application as it is. -/
theorem under_eq_self {failure : Failure} (h : ∀ f, failure = .fault f → f.family = .other) :
    failure.under head = failure := by
  cases failure with
  | error e => rfl
  | fault f => simp [under, Fault.blamesArguments, h f rfl]

/-- A fault that leaves an application is the one that the function failed with, and it does not
blame the arguments. -/
theorem eq_of_under_eq_fault {failure : Failure} {f : Fault} (h : failure.under head = .fault f) :
    failure = .fault f ∧ f.family = .other := by
  cases failure with
  | error e => cases h
  | fault f' =>
    by_cases hother : f'.family = .other
    · rw [under_eq_self (by simpa using hother)] at h
      cases h
      exact ⟨rfl, hother⟩
    · rw [under_fault hother] at h
      cases h

end Failure

namespace Account

variable {α β γ : Type} {host : Host}

/-- What goes on from the value of an account; nothing goes on from a failure. -/
def following (c : Account α) (later : α → List γ) : List γ :=
  match c.outcome with
  | .ok a => later a
  | .error _ => []

/-- Where nothing is made of a value, nothing follows. -/
theorem following_nil (c : Account α) : c.following (fun _ => ([] : List γ)) = [] := by
  unfold following
  split <;> rfl

/-- How a computation ends that makes certain applications. If the calls of all of them come to
values, it ends with a value or with an error of evaluation itself. Otherwise only the last one
fails, and the computation ends with that failure under the head symbol. -/
inductive Ends (host : Host) : List Application → Except Failure α → Prop
  | value {made : List Application} (a : α) (h : ∀ p ∈ made, p.Succeeds host) :
      Ends host made (.ok a)
  | error {made : List Application} (e : EvalError) (h : ∀ p ∈ made, p.Succeeds host) :
      Ends host made (.error e.toFailure)
  | call {made : List Application} (last : Application) {failure : Failure}
      (h : ∀ p ∈ made, p.Succeeds host)
      (hlast : last.function.apply host last.args = .error failure) :
      Ends host (made ++ [last]) (.error (failure.under last.head))

/-- The calls before a value all come to values. -/
theorem Ends.succeeds {made : List Application} {a : α} (h : Ends host made (.ok a)) :
    ∀ p ∈ made, p.Succeeds host := by
  cases h with
  | value _ h => exact h

/-- What is made before by calls that come to values ends as what comes after it. -/
theorem Ends.after {made later : List Application} {outcome : Except Failure α}
    (hlater : Ends host later outcome) (h : ∀ p ∈ made, p.Succeeds host) :
    Ends host (made ++ later) outcome := by
  cases hlater with
  | value a h' => exact .value a (List.forall_mem_append.mpr ⟨h, h'⟩)
  | error e h' => exact .error e (List.forall_mem_append.mpr ⟨h, h'⟩)
  | call last h' hlast =>
    rw [← List.append_assoc]
    exact .call last (List.forall_mem_append.mpr ⟨h, h'⟩) hlast

/-- A call that fails is the last one, and the computation ends with its failure. -/
theorem Ends.of_failing {earlier later : List Application} {a : Application}
    {outcome : Except Failure α} {failure : Failure}
    (h : Ends host (earlier ++ a :: later) outcome)
    (ha : a.function.apply host a.args = .error failure) :
    later = [] ∧ (∀ b ∈ earlier, b.Succeeds host) ∧ outcome = .error (failure.under a.head) := by
  have hfails : ¬ a.Succeeds host := by
    rintro ⟨value, hvalue⟩
    rw [ha] at hvalue
    cases hvalue
  generalize hmade : earlier ++ a :: later = made at h
  cases h with
  | value _ h => exact absurd (h a (by simp [← hmade])) hfails
  | error _ h => exact absurd (h a (by simp [← hmade])) hfails
  | call last h hlast =>
    obtain rfl | ⟨rest, final, rfl⟩ := List.eq_nil_or_concat later
    · obtain ⟨rfl, hsame⟩ := List.append_inj' hmade rfl
      obtain rfl := List.singleton_inj.mp hsame
      obtain rfl : failure = _ := Except.error.inj (ha.symm.trans hlast)
      exact ⟨rfl, h, rfl⟩
    · rw [List.concat_eq_append, ← List.cons_append, ← List.append_assoc] at hmade
      obtain ⟨rfl, -⟩ := List.append_inj' hmade rfl
      exact absurd (h a (by simp)) hfails

/-- A fault that a computation ends with does not blame the arguments. -/
theorem Ends.family_eq_other {made : List Application} {fault : Fault}
    (h : Ends host made (.error (.fault fault) : Except Failure α)) : fault.family = .other := by
  generalize houtcome : (.error (.fault fault) : Except Failure α) = outcome at h
  cases h with
  | value a _ => cases houtcome
  | error e _ => cases houtcome
  | call last _ _ => exact (Failure.eq_of_under_eq_fault (Except.error.inj houtcome).symm).2

/-- A fault that blames no arguments ends a computation exactly if one of the calls fails with it. -/
theorem Ends.eq_fault_iff {made : List Application} {outcome : Except Failure α}
    (h : Ends host made outcome) {fault : Fault} (hfamily : fault.family = .other) :
    outcome = .error (.fault fault) ↔
      ∃ a ∈ made, a.function.apply host a.args = .error (.fault fault) := by
  have hunder (head : String) : (Failure.fault fault).under head = .fault fault :=
    Failure.under_eq_self (by simpa using hfamily)
  constructor
  · intro houtcome
    cases h with
    | value a _ => cases houtcome
    | error e _ => cases houtcome
    | call last _ hlast =>
      obtain ⟨rfl, -⟩ := Failure.eq_of_under_eq_fault (Except.error.inj houtcome)
      exact ⟨last, by simp, hlast⟩
  · rintro ⟨a, ha, hfails⟩
    obtain ⟨earlier, later, rfl⟩ := List.append_of_mem ha
    obtain ⟨-, -, houtcome⟩ := h.of_failing hfails
    rw [houtcome, hunder]

/-- An account of a computation that makes certain applications and no other calls. -/
structure MadeBy (host : Host) (made : List Application) (c : Account α) : Prop where
  calls : made.map Application.call = c.calls
  ends : Ends host made c.outcome

/-- A value without calls. -/
theorem madeBy_pure (a : α) : MadeBy host [] (pure a) := ⟨rfl, .value a (by simp)⟩

/-- An error of evaluation without calls. -/
theorem madeBy_fail (e : EvalError) : MadeBy host [] (fail e : Account α) :=
  ⟨rfl, .error e (by simp)⟩

/-- Looking up a name. -/
theorem madeBy_resolve (settings : Settings) (name : String) (value : Value) :
    MadeBy host [] (resolve settings name value) := by
  obtain h | ⟨-, -, h⟩ := resolve_pure_or_fail settings name value
  · rw [h]
    exact madeBy_pure value
  · rw [h]
    exact madeBy_fail (.unbound name)

/-- A list that applies nothing. -/
theorem madeBy_headValue (head : Value) (tail : List Value) :
    MadeBy host [] (headValue head tail) := by
  obtain ⟨-, h⟩ | ⟨e, -, h⟩ := headValue_pure_or_fail head tail
  · rw [h]
    exact madeBy_pure head
  · rw [h]
    exact madeBy_fail e

/-- The failure of a call leaves its application under the head symbol. -/
theorem applied_of_error {head : String} {f : Native} {args : List Value} {failure : Failure}
    (h : f.apply host args = .error failure) :
    applied host head f args = .error (failure.under head) := by
  rw [applied, h]
  cases failure <;> rfl

/-- A call is made by its own application. -/
theorem madeBy_call (head : String) (f : Native) (args : List Value) :
    MadeBy host [⟨head, f, args⟩] (call host head f args) := by
  refine ⟨rfl, ?_⟩
  rw [call]
  cases happly : f.apply host args with
  | ok value =>
    rw [applied, happly]
    exact .value value (List.forall_mem_singleton.mpr ⟨value, happly⟩)
  | error failure =>
    rw [applied_of_error happly, ← List.nil_append [_]]
    exact .call ⟨head, f, args⟩ (by simp) happly

/-- Computations in turn: the second makes its applications if the first has a value. -/
theorem MadeBy.bind {made : List Application} {c : Account α} {later : α → List Application}
    {next : α → Account β} (hc : MadeBy host made c)
    (hnext : ∀ a, MadeBy host (later a) (next a)) :
    MadeBy host (made ++ c.following later) (c >>= next) := by
  obtain ⟨hcalls, hends⟩ := hc
  cases houtcome : c.outcome with
  | error f =>
    rw [houtcome] at hends
    rw [following, houtcome, List.append_nil]
    refine ⟨by rw [hcalls, calls_bind_of_error houtcome], ?_⟩
    rw [bind_of_error houtcome]
    cases hends with
    | error e h => exact .error e h
    | call last h hlast => exact .call last h hlast
  | ok a =>
    rw [houtcome] at hends
    obtain ⟨hcalls', hends'⟩ := hnext a
    rw [following, houtcome]
    refine ⟨by rw [List.map_append, hcalls, hcalls', calls_bind_of_ok houtcome], ?_⟩
    rw [bind_of_ok houtcome]
    exact hends'.after hends.succeeds

/-- A value made of the value of a computation. -/
theorem MadeBy.map {made : List Application} {c : Account α} (h : MadeBy host made c)
    (g : α → β) : MadeBy host made (c >>= fun a => pure (g a)) := by
  have hbind : MadeBy host (made ++ c.following fun _ => []) (c >>= fun a => pure (g a)) :=
    h.bind fun a => madeBy_pure (g a)
  rwa [following_nil, List.append_nil] at hbind

/-- That a list is evaluated is recorded without a call. -/
theorem MadeBy.after_evaluating {made : List Application} {c : Account α}
    (h : MadeBy host made c) (form : Value) :
    MadeBy host made (record (.evaluating form) >>= fun _ => c) := ⟨h.calls, h.ends⟩

end Account

namespace Evaluation

open Account

variable (host : Host) (settings : Settings)

mutual

/-- The applications that come to call a native function while an expression is evaluated, in the
order of their calls. -/
def applications (scope : Scope) (depth : Nat) (expr : Value) : List Application :=
  if settings.maxDepth < depth then []
  else match expr with
    | .list (.symbol name :: args) =>
      if name = "let" then applicationsLet scope (depth + 1) args
      else match scope name with
        | .native f =>
          applicationsAll scope (depth + 1) args ++
            (meaningAll host settings scope (depth + 1) args).following fun values =>
              [⟨name, f, values⟩]
        | _ => []
    | _ => []

/-- The applications that come to call a native function while arguments are evaluated. -/
def applicationsAll (scope : Scope) (depth : Nat) : List Value → List Application
  | [] => []
  | expr :: rest =>
    applications scope depth expr ++
      (meaning host settings scope depth expr).following fun _ => applicationsAll scope depth rest

/-- The applications that come to call a native function in the bindings and the body of a
`let`. -/
def applicationsLet (scope : Scope) (depth : Nat) : List Value → List Application
  | [] => []
  | [body] => applications scope depth body
  | binding :: rest =>
    match binding with
    | .list [.symbol name, expr] =>
      applications scope depth expr ++
        (meaning host settings scope depth expr).following fun value =>
          applicationsLet (Function.update scope name value) depth rest
    | _ => []

end

variable {host settings} {scope : Scope} {depth : Nat}

/-- Beyond the depth limit there are no applications. -/
theorem madeBy_by_depth {expr : Value}
    (h : (depth : Int) ≤ settings.maxDepth →
      MadeBy host (applications host settings scope depth expr)
        (meaning host settings scope depth expr)) :
    MadeBy host (applications host settings scope depth expr)
      (meaning host settings scope depth expr) := by
  by_cases hlevel : (depth : Int) ≤ settings.maxDepth
  · exact h hlevel
  · have hlt : settings.maxDepth < depth := by omega
    unfold applications
    rw [meaning_of_lt hlt, if_pos hlt]
    exact madeBy_fail _

/-- Only a list headed by a symbol has applications. -/
theorem applications_eq_nil {expr : Value}
    (h : ∀ name args, expr ≠ .list (.symbol name :: args)) :
    applications host settings scope depth expr = [] := by
  unfold applications
  split
  · rfl
  · split
    · next name args => exact absurd rfl (h name args)
    · rfl

/-- A head symbol that stands for no native function comes to its own value. -/
theorem resolve_bind_applyHead {value : Value} (hvalue : ∀ f, value ≠ .native f) (name : String)
    (args : Account (List Value)) :
    Account.resolve settings name value >>= applyHead host name args =
      Account.resolve settings name value := by
  cases value with
  | native f => exact absurd rfl (hvalue f)
  | unbound =>
    rw [Account.resolve]
    split <;> rfl
  | _ => rfl

/-- What the value of a head symbol comes to is made by the applications among the arguments and by
the one of the head symbol. -/
theorem madeBy_application {name : String} (hname : name ≠ "let") (args : List Value)
    (h : (depth : Int) ≤ settings.maxDepth)
    (hargs : MadeBy host (applicationsAll host settings scope (depth + 1) args)
      (meaningAll host settings scope (depth + 1) args)) :
    MadeBy host (applications host settings scope depth (.list (.symbol name :: args)))
      (Account.resolve settings name (scope name) >>=
        applyHead host name (meaningAll host settings scope (depth + 1) args)) := by
  rw [applications, if_neg (by omega), if_neg hname]
  cases scope name with
  | native f => exact hargs.bind fun values => madeBy_call name f values
  | _ =>
    rw [resolve_bind_applyHead (by simp)]
    exact madeBy_resolve settings name _

/-- The calls of evaluating an expression are made by its applications, and so those of evaluating
arguments and the bindings and the body of a `let`. -/
theorem madeBy_applications (host : Host) (settings : Settings) :
    Value.EvaluationInduction
      (fun expr => ∀ scope depth, MadeBy host (applications host settings scope depth expr)
        (meaning host settings scope depth expr))
      (fun args => ∀ scope depth, MadeBy host (applicationsAll host settings scope depth args)
        (meaningAll host settings scope depth args))
      (fun items => ∀ scope depth, MadeBy host (applicationsLet host settings scope depth items)
        (meaningLet host settings scope depth items)) where
  symbol name scope depth := by
    refine madeBy_by_depth fun h => ?_
    rw [meaning_symbol h, applications_eq_nil (by simp)]
    exact madeBy_resolve settings name _
  empty scope depth := by
    refine madeBy_by_depth fun h => ?_
    rw [meaning_empty h, applications_eq_nil (by simp)]
    exact madeBy_pure _
  letForm items hitems scope depth := by
    refine madeBy_by_depth fun h => ?_
    rw [meaning_let h, applications, if_neg (by omega), if_pos rfl]
    exact (hitems scope (depth + 1)).after_evaluating _
  application name args hname hargs scope depth := by
    refine madeBy_by_depth fun h => ?_
    rw [meaning_application h hname]
    exact (madeBy_application hname args h (hargs scope (depth + 1))).after_evaluating _
  headed head tail hhead scope depth := by
    refine madeBy_by_depth fun h => ?_
    rw [meaning_headed h hhead, applications_eq_nil (by simpa using hhead)]
    exact (madeBy_headValue head tail).after_evaluating _
  leaf v hsymbol hlist scope depth := by
    refine madeBy_by_depth fun h => ?_
    rw [meaning_leaf h hsymbol hlist, applications_eq_nil fun name args => hlist _]
    exact madeBy_pure _
  nil scope depth := by
    rw [meaningAll, applicationsAll]
    exact madeBy_pure _
  cons v rest hv hrest scope depth := by
    rw [meaningAll_cons, applicationsAll]
    exact (hv scope depth).bind fun value => (hrest scope depth).map (value :: ·)
  bodyless scope depth := by
    rw [meaningLet, applicationsLet]
    exact madeBy_fail _
  body v hv scope depth := by
    rw [meaningLet_body, applicationsLet]
    exact hv scope depth
  binding name v rest hne hv hrest scope depth := by
    rw [meaningLet_binding name v hne, applicationsLet]
    · exact (hv scope depth).bind fun value => hrest _ depth
    · simpa using hne
  malformed v rest hne hmalformed scope depth := by
    rw [meaningLet_malformed hne hmalformed, applicationsLet]
    · exact madeBy_fail _
    · simpa using hne
    · exact hmalformed

/-- A fault that blames no arguments ends an evaluation exactly if a call in it fails with it. -/
theorem account_eq_fault_iff (host : Host) (settings : Settings) (es : Environments)
    (env depth : Nat) (expr : Value) {fault : Fault} (hfamily : fault.family = .other) :
    ((evaluate host settings env depth expr).account es).outcome = .error (.fault fault) ↔
      ∃ call ∈ ((evaluate host settings env depth expr).account es).calls,
        call.1.apply host call.2 = .error (.fault fault) := by
  rw [account_evaluate]
  obtain ⟨hcalls, hends⟩ :=
    (madeBy_applications host settings).expression expr (es.lookup env) depth
  rw [hends.eq_fault_iff hfamily, ← hcalls]
  simp [Application.call]

/-- The calls of an evaluation are those of its applications, and a call that fails is the last of
them, after calls that all came to values. A fault that blames the arguments makes the evaluation
fail with an error that carries it and is worded after the head symbol of the application that made
the call, wherever in the expression that stands; any other failure leaves the evaluation as it is.
So a fault that an evaluation ends with never blames the arguments. -/
theorem evaluate_native_failure (host : Host) (settings : Settings) (es : Environments) (env : Nat)
    (expr : Value) :
    let made := applications host settings (es.lookup env) 0 expr
    let r := (evaluate host settings env 0 expr).run { environments := es }
    made.map Application.call = Event.calls r.2.events.toList ∧
    (∀ fault, r.1 = .error (.fault fault) → fault.family = .other) ∧
    ∀ earlier a later failure, made = earlier ++ a :: later →
      a.function.apply host a.args = .error failure →
      later = [] ∧ (∀ b ∈ earlier, b.Succeeds host) ∧
      (∀ fault, failure = .fault fault → fault.family ≠ .other →
        r.1 = .error (EvalError.nativeFault a.head fault).toFailure ∧
        (EvalError.nativeFault a.head fault).message = a.head ++ ": " ++ fault.text) ∧
      ((∀ fault, failure = .fault fault → fault.family = .other) → r.1 = .error failure) := by
  obtain ⟨hcalls, hends⟩ := (madeBy_applications host settings).expression expr (es.lookup env) 0
  dsimp only
  rw [gives_evaluate host settings es env 0 expr #[], Array.empty_append]
  dsimp only
  refine ⟨hcalls, fun fault hfault => ?_, fun earlier a later failure hmade ha => ?_⟩
  · rw [hfault] at hends
    exact hends.family_eq_other
  · rw [hmade] at hends
    obtain ⟨hlater, hearlier, houtcome⟩ := hends.of_failing ha
    refine ⟨hlater, hearlier, fun fault hfault hblames => ⟨?_, rfl⟩, fun hother => ?_⟩
    · rw [houtcome, hfault, Failure.under_fault hblames]
    · rw [houtcome, Failure.under_eq_self hother]

/-- A function that fails among the arguments of another one, in a binding of a `let`: the fault is
reported under the symbol that called it, and neither the argument behind it nor the other function
nor the body is evaluated. -/
theorem evaluate_native_failure_in_binding :
    let fault : Fault := .host ⟨.type, "TypeError", "bad"⟩
    let f : Native := .host ⟨"f", "f"⟩
    let g : Native := .host ⟨"g", "g"⟩
    let host : Host :=
      ⟨fun h args => if h.name = "g" then .error (.fault fault) else .ok (.list args)⟩
    let es : Environments :=
      ((Environments.push {} none).define 0 "f" (.native f)).define 0 "boom" (.native g)
    let expr : Value := .list [.symbol "let", .list [.symbol "x", .list [.symbol "f",
      .list [.symbol "f", .text "a"], .list [.symbol "boom", .text "b"],
      .list [.symbol "f", .text "c"]]], .list [.symbol "f", .symbol "x"]]
    applications host {} (es.lookup 0) 0 expr =
      [⟨"f", f, [.text "a"]⟩] ++ ⟨"boom", g, [.text "b"]⟩ :: [] ∧
    ((evaluate host {} 0 0 expr).run { environments := es }).1 =
      .error (EvalError.nativeFault "boom" fault).toFailure := by
  intro fault f g host es expr
  have hscope : es.lookup 0 =
      Function.update (Function.update (fun _ => .unbound) "f" (.native f)) "boom" (.native g) := by
    have hroot : (Environments.push {} none).lookup 0 = fun _ => .unbound :=
      Environments.lookup_push_none {}
    rw [Environments.lookup_define (by simp [Environments.push]),
      Environments.lookup_define (by simp [Environments.push]), hroot]
  have hmade : applications host {} (es.lookup 0) 0 expr =
      [⟨"f", f, [.text "a"]⟩] ++ ⟨"boom", g, [.text "b"]⟩ :: [] := by
    rw [hscope]
    rfl
  obtain ⟨-, -, hfirst⟩ := evaluate_native_failure host {} es 0 expr
  obtain ⟨-, -, hblames, -⟩ := hfirst [⟨"f", f, [.text "a"]⟩] ⟨"boom", g, [.text "b"]⟩ []
    (.fault fault) hmade rfl
  exact ⟨hmade, (hblames fault rfl (by decide)).1⟩

end Evaluation

end Lisplet
