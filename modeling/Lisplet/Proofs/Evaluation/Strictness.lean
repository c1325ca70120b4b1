import Lisplet.Proofs.Evaluation.Applications

/-!
# What strictness does

Strictness only ever cuts a run short. Without it, an evaluation takes certain steps: it looks names
up, bare ones and those at the head of a list, and calls native functions. If none of the names
stands for nothing, the evaluation is the same whether it is strict or not. Otherwise a strict one
takes the same steps up to the first such name, and ends there in an error that names it.
-/

namespace Lisplet

/-- A step of an evaluation: a name is looked up that stands for a value, or a native function is
called. -/
inductive Step where
  | lookup (name : String) (value : Value)
  | call (f : Native) (args : List Value)

namespace Step

/-- The call that a step is, if it is one. -/
def call? : Step → Option (Native × List Value)
  | .lookup .. => none
  | .call f args => some (f, args)

/-- The calls among some steps, in order. -/
def calls (taken : List Step) : List (Native × List Value) := taken.filterMap call?

/-- Whether no name that is looked up among some steps is unbound. -/
def AllBound (taken : List Step) : Prop := ∀ name, .lookup name .unbound ∉ taken

/-- The calls of steps in turn. -/
@[simp] theorem calls_append (taken later : List Step) :
    calls (taken ++ later) = calls taken ++ calls later := List.filterMap_append

/-- No name is looked up in no step. -/
theorem allBound_nil : AllBound [] := fun _ => List.not_mem_nil

/-- All names are bound among steps in turn if they are among those before and those after. -/
theorem AllBound.append {taken later : List Step} (h : AllBound taken) (hlater : AllBound later) :
    AllBound (taken ++ later) := fun name hname =>
  (List.mem_append.mp hname).elim (h name) (hlater name)

/-- The first unbound name among some steps is where it is and no other. -/
theorem first_unique {before before' later later' : List Step} {name name' : String}
    (h : before ++ .lookup name .unbound :: later = before' ++ .lookup name' .unbound :: later')
    (hbefore : AllBound before) (hbefore' : AllBound before') :
    before = before' ∧ name = name' := by
  obtain ⟨between, rfl, hmore⟩ | ⟨between, rfl, hmore⟩ := List.append_eq_append_iff.mp h
  · obtain ⟨rfl, hsame⟩ | ⟨more, rfl, -⟩ := List.cons_eq_append_iff.mp hmore
    · exact ⟨(List.append_nil before).symm, by cases hsame; rfl⟩
    · exact absurd (List.mem_append_right before List.mem_cons_self) (hbefore' name)
  · obtain ⟨rfl, hsame⟩ | ⟨more, rfl, -⟩ := List.cons_eq_append_iff.mp hmore
    · exact ⟨List.append_nil before', by cases hsame; rfl⟩
    · exact absurd (List.mem_append_right before' List.mem_cons_self) (hbefore name')

end Step

namespace Account

variable {α β : Type}

/-- Two accounts of one computation, of which the second is strict, and the steps that the first one
takes: the two are the same if all names that are looked up are bound, and else the second ends at
the first that is not. -/
structure CutShort (taken : List Step) (lenient strict : Account α) : Prop where
  calls : Step.calls taken = lenient.calls
  cut : (Step.AllBound taken ∧ strict = lenient) ∨
    ∃ before name later, taken = before ++ .lookup name .unbound :: later ∧
      Step.AllBound before ∧ strict.outcome = .error (EvalError.unbound name).toFailure ∧
      strict.calls = Step.calls before

/-- Without any step strictness makes no difference. -/
theorem cutShort_of_no_calls {c : Account α} (h : c.calls = []) : CutShort [] c c :=
  ⟨h.symm, Or.inl ⟨Step.allBound_nil, rfl⟩⟩

/-- A value without any step. -/
theorem cutShort_pure (a : α) : CutShort [] (pure a) (pure a) := cutShort_of_no_calls rfl

/-- An error of evaluation without any step. -/
theorem cutShort_fail (e : EvalError) : CutShort [] (fail e : Account α) (fail e) :=
  cutShort_of_no_calls rfl

/-- A list that applies nothing takes no step. -/
theorem cutShort_headValue (head : Value) (tail : List Value) :
    CutShort [] (headValue head tail) (headValue head tail) :=
  cutShort_of_no_calls (by rw [calls, events_headValue]; rfl)

/-- A strict computation that has been cut short does not go on. -/
theorem CutShort.bind {taken : List Step} {later : α → List Step} {lenient strict : Account α}
    {next next' : α → Account β} (h : CutShort taken lenient strict)
    (hnext : ∀ a, CutShort (later a) (next a) (next' a)) :
    CutShort (taken ++ lenient.following later) (lenient >>= next) (strict >>= next') := by
  obtain ⟨hcalls, hcut⟩ := h
  cases houtcome : lenient.outcome with
  | error f =>
    rw [following, houtcome, List.append_nil]
    refine ⟨hcalls.trans (calls_bind_of_error houtcome next).symm, ?_⟩
    obtain ⟨hbound, rfl⟩ | ⟨before, name, rest, hsplit, hbefore, hstrict, hmade⟩ := hcut
    · exact Or.inl ⟨hbound, by rw [bind_of_error houtcome, bind_of_error houtcome]⟩
    · refine Or.inr ⟨before, name, rest, hsplit, hbefore, ?_, ?_⟩
      · rw [bind_of_error hstrict]
      · rw [calls_bind_of_error hstrict, hmade]
  | ok a =>
    obtain ⟨hcalls', hcut'⟩ := hnext a
    have hsteps : lenient.following later = later a := by rw [following, houtcome]
    rw [hsteps]
    refine ⟨by rw [Step.calls_append, hcalls, hcalls', calls_bind_of_ok houtcome], ?_⟩
    obtain ⟨hbound, rfl⟩ | ⟨before, name, rest, hsplit, hbefore, hstrict, hmade⟩ := hcut
    · obtain ⟨hbound', hsame⟩ | ⟨before, name, rest, hsplit, hbefore, hstrict, hmade⟩ := hcut'
      · exact Or.inl ⟨hbound.append hbound', by rw [bind_of_ok houtcome, bind_of_ok houtcome, hsame]⟩
      · refine Or.inr ⟨taken ++ before, name, rest, by rw [hsplit, List.append_assoc],
          hbound.append hbefore, ?_, ?_⟩
        · rw [bind_of_ok houtcome, hstrict]
        · rw [calls_bind_of_ok houtcome, Step.calls_append, hcalls, hmade]
    · refine Or.inr ⟨before, name, rest ++ later a, ?_, hbefore, ?_, ?_⟩
      · rw [hsplit, List.append_assoc, List.cons_append]
      · rw [bind_of_error hstrict]
      · rw [calls_bind_of_error hstrict, hmade]

/-- A value made of the value of a computation. -/
theorem CutShort.map {taken : List Step} {lenient strict : Account α}
    (h : CutShort taken lenient strict) (g : α → β) :
    CutShort taken (lenient >>= fun a => pure (g a)) (strict >>= fun a => pure (g a)) := by
  have hbind : CutShort (taken ++ lenient.following fun _ => []) (lenient >>= fun a => pure (g a))
      (strict >>= fun a => pure (g a)) := h.bind fun a => cutShort_pure (g a)
  rwa [following_nil, List.append_nil] at hbind

/-- That a list is evaluated is recorded in either mode. -/
theorem CutShort.after_evaluating {taken : List Step} {lenient strict : Account α}
    (h : CutShort taken lenient strict) (form : Value) :
    CutShort taken (record (.evaluating form) >>= fun _ => lenient)
      (record (.evaluating form) >>= fun _ => strict) := by
  have hrecord : CutShort [] (record (.evaluating form)) (record (.evaluating form)) :=
    cutShort_of_no_calls rfl
  exact hrecord.bind fun _ => h

/-- A name that is unbound is where a strict run is cut short. -/
theorem cutShort_resolve (limit : Int) (name : String) (value : Value) :
    CutShort [.lookup name value] (resolve ⟨limit, false⟩ name value)
      (resolve ⟨limit, true⟩ name value) := by
  cases value with
  | unbound => exact ⟨rfl, Or.inr ⟨[], name, [], rfl, Step.allBound_nil, rfl, rfl⟩⟩
  | _ => exact ⟨rfl, Or.inl ⟨fun other => by simp, rfl⟩⟩

/-- Without strictness, looking up a name always comes to what it stands for. -/
theorem following_resolve {γ : Type} (limit : Int) (name : String) (value : Value)
    (later : Value → List γ) :
    (resolve ⟨limit, false⟩ name value).following later = later value := by
  cases value <;> rfl

/-- A call is a step of its own and looks up no name. -/
theorem cutShort_call (host : Host) (head : String) (f : Native) (args : List Value) :
    CutShort [.call f args] (call host head f args) (call host head f args) :=
  ⟨rfl, Or.inl ⟨fun name => by simp, rfl⟩⟩

end Account

namespace Evaluation

open Account

variable (host : Host) (settings : Settings)

mutual

/-- The steps that evaluating an expression takes in a scope: the names that it looks up, bare ones
and heads of lists, with the values that they stand for there, and the functions that it calls. -/
def steps (scope : Scope) (depth : Nat) (expr : Value) : List Step :=
  if settings.maxDepth < depth then []
  else match expr with
    | .symbol name => [.lookup name (scope name)]
    | .list (.symbol name :: args) =>
      if name = "let" then stepsLet scope (depth + 1) args
      else .lookup name (scope name) ::
        match scope name with
        | .native f =>
          stepsAll scope (depth + 1) args ++
            (meaningAll host settings scope (depth + 1) args).following fun values =>
              [.call f values]
        | _ => []
    | _ => []

/-- The steps that evaluating arguments takes. -/
def stepsAll (scope : Scope) (depth : Nat) : List Value → List Step
  | [] => []
  | expr :: rest =>
    steps scope depth expr ++
      (meaning host settings scope depth expr).following fun _ => stepsAll scope depth rest

/-- The steps that the bindings and the body of a `let` take. -/
def stepsLet (scope : Scope) (depth : Nat) : List Value → List Step
  | [] => []
  | [body] => steps scope depth body
  | binding :: rest =>
    match binding with
    | .list [.symbol name, expr] =>
      steps scope depth expr ++
        (meaning host settings scope depth expr).following fun value =>
          stepsLet (Function.update scope name value) depth rest
    | _ => []

end

variable {host settings} {limit : Int} {scope : Scope} {depth : Nat}

/-- Beyond the depth limit there are no steps, and strictness makes no difference. -/
theorem cutShort_by_depth {expr : Value}
    (h : (depth : Int) ≤ limit →
      CutShort (steps host ⟨limit, false⟩ scope depth expr)
        (meaning host ⟨limit, false⟩ scope depth expr)
        (meaning host ⟨limit, true⟩ scope depth expr)) :
    CutShort (steps host ⟨limit, false⟩ scope depth expr)
      (meaning host ⟨limit, false⟩ scope depth expr)
      (meaning host ⟨limit, true⟩ scope depth expr) := by
  by_cases hlevel : (depth : Int) ≤ limit
  · exact h hlevel
  · have hlt : limit < depth := by omega
    unfold steps
    rw [meaning_of_lt hlt, meaning_of_lt hlt, if_pos hlt]
    exact cutShort_fail .tooDeep

/-- Only symbols and lists headed by one take steps. -/
theorem steps_eq_nil {expr : Value} (hsymbol : ∀ name, expr ≠ .symbol name)
    (h : ∀ name args, expr ≠ .list (.symbol name :: args)) :
    steps host settings scope depth expr = [] := by
  unfold steps
  split
  · rfl
  · split
    · next name => exact absurd rfl (hsymbol name)
    · next name args => exact absurd rfl (h name args)
    · rfl

/-- Applying the value of a head symbol is cut short only among the arguments. -/
theorem cutShort_applyHead (host : Host) (head : String) {taken : List Step}
    {args args' : Account (List Value)} (h : CutShort taken args args') (value : Value) :
    CutShort
      (match value with
        | .native f => taken ++ args.following fun values => [.call f values]
        | _ => [])
      (applyHead host head args value) (applyHead host head args' value) := by
  cases value with
  | native f => exact h.bind fun values => cutShort_call host head f values
  | _ => exact cutShort_pure _

/-- An application is cut short at its head symbol or among its arguments. -/
theorem cutShort_application {name : String} (hname : name ≠ "let") (args : List Value)
    (hlevel : (depth : Int) ≤ limit)
    (h : CutShort (stepsAll host ⟨limit, false⟩ scope (depth + 1) args)
      (meaningAll host ⟨limit, false⟩ scope (depth + 1) args)
      (meaningAll host ⟨limit, true⟩ scope (depth + 1) args)) :
    CutShort (steps host ⟨limit, false⟩ scope depth (.list (.symbol name :: args)))
      (meaning host ⟨limit, false⟩ scope depth (.list (.symbol name :: args)))
      (meaning host ⟨limit, true⟩ scope depth (.list (.symbol name :: args))) := by
  rw [meaning_application hlevel hname, meaning_application hlevel hname, steps,
    if_neg (Int.not_lt.mpr hlevel), if_neg hname]
  have hboth := (cutShort_resolve limit name (scope name)).bind (cutShort_applyHead host name h)
  rw [following_resolve] at hboth
  exact hboth.after_evaluating _

/-- Strictness cuts the evaluation of an expression short at the first unbound name, and so the
evaluation of arguments and of the bindings and the body of a `let`. -/
theorem cutShort_of_strict (host : Host) (limit : Int) :
    Value.EvaluationInduction
      (fun expr => ∀ scope depth,
        CutShort (steps host ⟨limit, false⟩ scope depth expr)
          (meaning host ⟨limit, false⟩ scope depth expr)
          (meaning host ⟨limit, true⟩ scope depth expr))
      (fun args => ∀ scope depth,
        CutShort (stepsAll host ⟨limit, false⟩ scope depth args)
          (meaningAll host ⟨limit, false⟩ scope depth args)
          (meaningAll host ⟨limit, true⟩ scope depth args))
      (fun items => ∀ scope depth,
        CutShort (stepsLet host ⟨limit, false⟩ scope depth items)
          (meaningLet host ⟨limit, false⟩ scope depth items)
          (meaningLet host ⟨limit, true⟩ scope depth items)) where
  symbol name scope depth := by
    refine cutShort_by_depth fun h => ?_
    rw [meaning_symbol h, meaning_symbol h, steps, if_neg (Int.not_lt.mpr h)]
    exact cutShort_resolve limit name _
  empty scope depth := by
    refine cutShort_by_depth fun h => ?_
    rw [meaning_empty h, meaning_empty h, steps_eq_nil (by simp) (by simp)]
    exact cutShort_pure _
  letForm items hitems scope depth := by
    refine cutShort_by_depth fun h => ?_
    rw [meaning_let h, meaning_let h, steps, if_neg (Int.not_lt.mpr h), if_pos rfl]
    exact (hitems scope (depth + 1)).after_evaluating _
  application name args hname hargs scope depth :=
    cutShort_by_depth fun h => cutShort_application hname args h (hargs scope (depth + 1))
  headed head tail hhead scope depth := by
    refine cutShort_by_depth fun h => ?_
    rw [meaning_headed h hhead, meaning_headed h hhead,
      steps_eq_nil (by simp) (by simpa using hhead)]
    exact (cutShort_headValue head tail).after_evaluating _
  leaf v hsymbol hlist scope depth := by
    refine cutShort_by_depth fun h => ?_
    rw [meaning_leaf h hsymbol hlist, meaning_leaf h hsymbol hlist,
      steps_eq_nil hsymbol fun name args => hlist _]
    exact cutShort_pure _
  nil scope depth := by
    rw [meaningAll, meaningAll, stepsAll]
    exact cutShort_pure _
  cons v rest hv hrest scope depth := by
    rw [meaningAll_cons, meaningAll_cons, stepsAll]
    exact (hv scope depth).bind fun value => (hrest scope depth).map (value :: ·)
  bodyless scope depth := by
    rw [meaningLet, meaningLet, stepsLet]
    exact cutShort_fail _
  body v hv scope depth := by
    rw [meaningLet_body, meaningLet_body, stepsLet]
    exact hv scope depth
  binding name v rest hne hv hrest scope depth := by
    rw [meaningLet_binding name v hne, meaningLet_binding name v hne, stepsLet]
    · exact (hv scope depth).bind fun value => hrest _ depth
    · simpa using hne
  malformed v rest hne hmalformed scope depth := by
    rw [meaningLet_malformed hne hmalformed, meaningLet_malformed hne hmalformed, stepsLet]
    · exact cutShort_fail _
    · simpa using hne
    · exact hmalformed

/-- A lenient evaluation looks names up and calls functions. If every name that it looks up is
bound, the strict evaluation is the same, in its outcome and in all that happens on the way.
Otherwise the strict one comes to the error that names the first that is not, and the functions that
it calls are those that the lenient one calls before it looks that name up. -/
theorem evaluate_strict (host : Host) (limit : Int) (es : Environments) (env depth : Nat)
    (expr : Value) :
    let lenient := (evaluate host ⟨limit, false⟩ env depth expr).run { environments := es }
    let strict := (evaluate host ⟨limit, true⟩ env depth expr).run { environments := es }
    let taken := steps host ⟨limit, false⟩ (es.lookup env) depth expr
    Step.calls taken = Event.calls lenient.2.events.toList ∧
    (Step.AllBound taken → strict = lenient) ∧
    ∀ before name later, taken = before ++ .lookup name .unbound :: later →
      Step.AllBound before →
      strict.1 = .error (EvalError.unbound name).toFailure ∧
        Event.calls strict.2.events.toList = Step.calls before := by
  dsimp only
  rw [gives_evaluate host ⟨limit, false⟩ es env depth expr #[],
    gives_evaluate host ⟨limit, true⟩ es env depth expr #[]]
  simp only [Array.empty_append]
  obtain ⟨hcalls, hcut⟩ := (cutShort_of_strict host limit).expression expr (es.lookup env) depth
  refine ⟨hcalls, fun hbound => ?_, fun before name later hsplit hbefore => ?_⟩
  · obtain ⟨-, hsame⟩ | ⟨before, name, later, hsplit, -⟩ := hcut
    · rw [hsame]
    · exact absurd (by simp [hsplit]) (hbound name)
  · obtain ⟨hbound, -⟩ | ⟨before', name', later', hsplit', hbefore', hstrict, hmade⟩ := hcut
    · exact absurd (by simp [hsplit]) (hbound name)
    · obtain ⟨rfl, rfl⟩ := Step.first_unique (hsplit.symm.trans hsplit') hbefore hbefore'
      exact ⟨hstrict, hmade⟩

end Evaluation

end Lisplet
