import Lisplet.Proofs.Environment.Holdings
import Lisplet.Proofs.Evaluation.Keeps
import Lisplet.Proofs.Form.Contents
import Lisplet.Proofs.Form.Nesting
import Lisplet.Proofs.Native.Tame

/-!
# The depth of evaluation

Evaluation goes one level deeper only when it goes into a list. So an expression whose lists are
nested no deeper than there are levels left is never too deep, and since the reader lets no form
nest deeper than the limit, no form that it yields is ever too deep under the same limit.
-/

namespace Lisplet.Evaluation

variable {allowed : HostFunction → Prop} {host : Host} {settings : Settings}

/-- A machine whose environments hold only allowed host functions. -/
def Holding (allowed : HostFunction → Prop) (m : Machine) : Prop :=
  m.environments.HoldOnly allowed

/-- A computation that keeps to allowed host functions and does not report the depth. -/
abbrev StaysWithin {α : Type} (allowed : HostFunction → Prop) (P : α → Prop)
    (c : Evaluation α) : Prop :=
  Keeps (Holding allowed) P (fun f => ¬ f.ReportsDepth) c

/-- What is recorded does not matter. -/
theorem staysWithin_record (event : Event) :
    StaysWithin allowed (fun _ => True) (record event) := keeps_modify fun _ hm => hm

/-- The value of a name is allowed where the environments hold nothing else. -/
theorem staysWithin_resolve (env : Nat) (name : String) :
    StaysWithin allowed (fun value => value.UsesOnly allowed) (resolve settings env name) := by
  unfold resolve
  apply keeps_get
  intro m hm
  have hvalue := hm.lookup env name
  split
  · split
    · exact keeps_fail (EvalError.not_reportsDepth (by simp) (by simp))
    · exact keeps_pure (by simp [Value.UsesOnly, Value.Leaves])
  · exact keeps_pure hvalue

/-- Calling a native function stays within what its host program does. -/
theorem staysWithin_call (hhost : host.IsTame allowed) (head : String) {f : Native}
    (hf : (Value.native f).UsesOnly allowed) {args : List Value}
    (hargs : ∀ v ∈ args, v.UsesOnly allowed) :
    StaysWithin allowed (fun value => value.UsesOnly allowed) (call host head f args) := by
  have htame := f.tame_apply hhost hf hargs
  unfold call
  apply keeps_bind (staysWithin_record _)
  intro _ _
  cases hresult : f.apply host args with
  | ok value =>
    rw [hresult] at htame
    exact keeps_pure htame
  | error failure =>
    rw [hresult] at htame
    cases failure with
    | error e => exact keeps_throw htame
    | fault fault =>
      dsimp only
      split
      · exact keeps_fail (EvalError.not_reportsDepth (by simp) (by simp))
      · exact keeps_throw htame

/-- A list that applies nothing stays within what its head is. -/
theorem staysWithin_headValue {head : Value} (hhead : head.UsesOnly allowed)
    (tail : List Value) :
    StaysWithin allowed (fun value => value.UsesOnly allowed) (headValue head tail) := by
  unfold headValue
  split
  · split
    · exact keeps_pure hhead
    · exact keeps_fail (EvalError.not_reportsDepth (by simp) (by simp))
  · split
    · exact keeps_pure hhead
    · exact keeps_fail (EvalError.not_reportsDepth (by simp) (by simp))
  · exact keeps_fail (EvalError.not_reportsDepth (by simp) (by simp))

mutual

/-- An expression whose lists are nested no deeper than there are levels left is not too deep. -/
theorem staysWithin_evaluate (hhost : host.IsTame allowed) (env depth : Nat) (expr : Value)
    (hexpr : expr.UsesOnly allowed) (hdepth : (depth : Int) + expr.nesting ≤ settings.maxDepth) :
    StaysWithin allowed (fun value => value.UsesOnly allowed)
      (evaluate host settings env depth expr) := by
  have hlevel : ¬ settings.maxDepth < depth := by omega
  unfold evaluate
  rw [if_neg hlevel]
  split
  · exact staysWithin_resolve env _
  · exact keeps_pure (by simp [Value.UsesOnly, Value.Leaves])
  · next head tail =>
    rw [Value.usesOnly_list, List.forall_mem_cons] at hexpr
    obtain ⟨hhead, htail⟩ := hexpr
    rw [Value.nesting_list, Value.nestingAll_cons] at hdepth
    -- one level deeper, the items of the list are nested one level less
    have hbelow : ((depth + 1 : ℕ) : Int) + Value.nestingAll tail ≤ settings.maxDepth := by omega
    apply keeps_bind (staysWithin_record _)
    intro _ _
    split
    · next name =>
      split
      · split
        · exact keeps_fail (EvalError.not_reportsDepth (by simp) (by simp))
        · refine keeps_inScope (fun m hm => hm.push _) (fun m hm => hm.pop) fun scope => ?_
          exact staysWithin_evaluateLet hhost scope (depth + 1) tail htail hbelow
      · apply keeps_bind (staysWithin_resolve env name)
        intro value hvalue
        split
        · apply keeps_bind (staysWithin_evaluateAll hhost env (depth + 1) tail htail hbelow)
          intro args hargs
          exact staysWithin_call hhost name hvalue hargs
        · exact keeps_pure hvalue
    · exact staysWithin_headValue hhead tail
  · exact keeps_pure hexpr

/-- Expressions nested no deeper than there are levels left are not too deep. -/
theorem staysWithin_evaluateAll (hhost : host.IsTame allowed) (env depth : Nat)
    (exprs : List Value) (hexprs : ∀ v ∈ exprs, v.UsesOnly allowed)
    (hdepth : (depth : Int) + Value.nestingAll exprs ≤ settings.maxDepth) :
    StaysWithin allowed (fun values => ∀ v ∈ values, v.UsesOnly allowed)
      (evaluateAll host settings env depth exprs) := by
  unfold evaluateAll
  split
  · exact keeps_pure (by simp)
  · next expr rest =>
    rw [List.forall_mem_cons] at hexprs
    rw [Value.nestingAll_cons] at hdepth
    apply keeps_bind (staysWithin_evaluate hhost env depth expr hexprs.1 (by omega))
    intro value hvalue
    apply keeps_bind (staysWithin_evaluateAll hhost env depth rest hexprs.2 (by omega))
    intro values hvalues
    exact keeps_pure (List.forall_mem_cons.mpr ⟨hvalue, hvalues⟩)

/-- The bindings and the body of a `let` that are nested no deeper than there are levels left are
not too deep. -/
theorem staysWithin_evaluateLet (hhost : host.IsTame allowed) (scope depth : Nat)
    (exprs : List Value) (hexprs : ∀ v ∈ exprs, v.UsesOnly allowed)
    (hdepth : (depth : Int) + Value.nestingAll exprs ≤ settings.maxDepth) :
    StaysWithin allowed (fun value => value.UsesOnly allowed)
      (evaluateLet host settings scope depth exprs) := by
  unfold evaluateLet
  split
  · exact keeps_fail (EvalError.not_reportsDepth (by simp) (by simp))
  · next body =>
    rw [List.forall_mem_cons] at hexprs
    rw [Value.nestingAll_cons] at hdepth
    exact staysWithin_evaluate hhost scope depth body hexprs.1 (by omega)
  · next binding rest _ =>
    rw [List.forall_mem_cons] at hexprs
    rw [Value.nestingAll_cons] at hdepth
    split
    · next name expr =>
      have hexpr : expr.UsesOnly allowed := Value.usesOnly_list.mp hexprs.1 expr (by simp)
      simp only [Value.nesting_list, Value.nestingAll_cons, Value.nestingAll_nil] at hdepth
      apply keeps_bind (staysWithin_evaluate hhost scope depth expr hexpr (by omega))
      intro value hvalue
      apply keeps_bind (keeps_modify fun m hm => hm.define scope name hvalue)
      intro _ _
      exact staysWithin_evaluateLet hhost scope depth rest hexprs.2 (by omega)
    · exact keeps_fail (EvalError.not_reportsDepth (by simp) (by simp))

end

/-- The reader makes no form that holds a host function. -/
theorem usesOnly_of_mem_drain {limit : Int} {text : String} {form : List Value}
    (h : form ∈ (Form.drain limit (.ofText text)).1) : (Value.list form).UsesOnly allowed :=
  Form.good_of_mem_drain Value.usesOnly_lexeme (fun _ => Value.usesOnly_list.mpr) h

/-- Under a positive limit, which is what the environment variables always ask for, no form that
the reader yields under the limit is too deep to evaluate under it. Only a host function within
reach could report that it is. -/
theorem evaluate_form_ne_tooDeep :
    (∀ variableValue settings, Settings.ofVariables variableValue = .ok settings →
      1 ≤ settings.maxDepth) ∧
    ∀ (host : Host) (settings : Settings) (text : String) (form : List Value) (env : Nat)
      (m : Machine) (allowed : HostFunction → Prop),
      1 ≤ settings.maxDepth →
      form ∈ (Form.drain settings.maxDepth (.ofText text)).1 →
      host.IsTame allowed → m.environments.HoldOnly allowed →
      ∀ e, ((evaluate host settings env 0 (.list form)).run m).1 = .error (.error e) →
        e.message ≠ "maximum evaluation depth exceeded" := by
  constructor
  · intro variableValue settings h
    rw [Settings.ofVariables] at h
    cases hdepth : Settings.readDepth (variableValue depthVariable) with
    | error e =>
      rw [hdepth] at h
      cases h
    | ok n =>
      rw [hdepth] at h
      cases hstrict : Settings.readStrict (variableValue strictVariable) with
      | error e =>
        rw [hstrict] at h
        cases h
      | ok b =>
        rw [hstrict] at h
        cases h
        exact Settings.one_le_of_readDepth hdepth
  · intro host settings text form env m allowed hpositive hform hhost hm e he
    have hnesting := Form.nesting_le_of_mem_drain hform
    have hwithin : StaysWithin allowed _ (evaluate host settings env 0 (.list form)) :=
      staysWithin_evaluate hhost env 0 _ (usesOnly_of_mem_drain hform) (by omega)
    obtain ⟨-, hend⟩ := hwithin m hm
    rw [he] at hend
    exact hend

/-- A form that nests right up to the limit is not too deep, also when a host function that may be
called in it gives its arguments back. -/
theorem evaluate_form_ne_tooDeep_at_limit :
    ∃ form ∈ (Form.drain 2 (.ofText "(f (f \"(\" f))")).1, ∀ e,
      ((evaluate ⟨fun _ args => .ok (.list args)⟩ { maxDepth := 2 } 0 0 (.list form)).run
        ⟨(Environments.push {} none).define 0 "f" (.native (.host ⟨"f", "f"⟩)), #[]⟩).1 =
          .error (.error e) → e.message ≠ "maximum evaluation depth exceeded" := by
  have hread : 0 < (Form.drain 2 (.ofText "(f (f \"(\" f))")).1.length := by decide +kernel
  obtain ⟨form, hform⟩ := List.exists_mem_of_length_pos hread
  have hhost : Host.IsTame (fun _ => True) ⟨fun _ args => .ok (.list args)⟩ := by
    intro f args _ hargs
    exact Value.usesOnly_list.mpr hargs
  have hempty : Environments.HoldOnly (fun _ => True) {} := by
    intro e name value h
    simp [Environments.bindings, Bindings.get?] at h
  have hf : (Value.native (.host ⟨"f", "f"⟩)).UsesOnly fun _ => True :=
    Value.usesOnly_host.mpr trivial
  have hbound := (hempty.push none).define 0 "f" hf
  exact ⟨form, hform, evaluate_form_ne_tooDeep.2 _ { maxDepth := 2 } _ form 0 _ (fun _ => True)
    (by decide) hform hhost hbound⟩

end Lisplet.Evaluation
