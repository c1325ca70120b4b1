import Lisplet.Proofs.Evaluation.Applications
import Lisplet.Proofs.Evaluation.Containment
import Lisplet.Proofs.Form.Contents
import Lisplet.Proofs.Interpreter.Course
import Lisplet.Proofs.Value.Depth

/-!
# Programs of a new interpreter

A new interpreter knows the builtin functions and nothing else, and no program changes that. What
its programs come to is made of doubles, texts and builtin functions, and what they fail with is an
error of the language: one of the reader, or one of evaluation. Only a builtin function that shows a
value for which the host has no room breaks a program off in another way.
-/

namespace Lisplet

/-- The elements of what programs of a new interpreter come to. The marker of an unbound name is
among them only where it is no error. -/
inductive Value.IsElement (strict : Bool) : Value → Prop
  | real (x : Binary64) : IsElement strict (.real x)
  | text (s : String) : IsElement strict (.text s)
  | nil : IsElement strict .nil
  | unbound (h : strict = false) : IsElement strict .unbound
  | builtin (f : Builtin) : IsElement strict (.native (.builtin f))

/-- A value made of lists and elements. -/
def Value.IsOrdinary (strict : Bool) (v : Value) : Prop := v.Leaves (IsElement strict)

/-- A failure that is an error of evaluation, of an unbound name only where that is one. -/
def Failure.IsOrdinary (strict : Bool) (f : Failure) : Prop :=
  ∃ e : EvalError, f = e.toFailure ∧
    (e.kind = .evaluation ∨ strict = true ∧ e.kind = .unboundSymbol)

/-- A call of a builtin function. -/
def IsBuiltinCall (call : Native × List Value) : Prop := ∃ f, call.1 = .builtin f

namespace Value

variable {strict : Bool}

/-- An element is made of itself. -/
theorem IsElement.isOrdinary {v : Value} (h : v.IsElement strict) : v.IsOrdinary strict := by
  have hleaf : ∀ items, v ≠ .list items := by
    rintro items rfl
    cases h
  exact (leaves_leaf hleaf).mpr h

/-- The literals that can be read are elements. -/
theorem literals_lexeme (lexeme : Lexeme) : lexeme.value.Literals (IsOrdinary strict) := by
  cases lexeme with
  | openParen => exact fun _ => (IsElement.text "(").isOrdinary
  | closeParen => exact fun _ => (IsElement.text ")").isOrdinary
  | text s => exact fun _ => (IsElement.text s).isOrdinary
  | symbol name => exact fun hsymbol => absurd rfl (hsymbol name)
  | number x => exact fun _ => (IsElement.real x).isOrdinary

end Value

namespace Evaluation

open Account

variable {host : Host} {settings : Settings}

/-- The builtin functions do not lead out of ordinary values, and their failures become errors of
evaluation where they are applied, unless they exhaust the stack of the host. -/
theorem applied_builtin (host : Host) (strict : Bool) (head : String) (f : Builtin)
    {args : List Value} (hargs : ∀ v ∈ args, v.IsOrdinary strict) :
    (∃ v, applied host head (.builtin f) args = .ok v ∧ v.IsOrdinary strict) ∨
      ∃ failure, applied host head (.builtin f) args = .error failure ∧
        (failure.IsOrdinary strict ∨ failure = .fault .exhausted) := by
  obtain happly | ⟨-, happly⟩ := Native.apply_builtin host f args
  · have hresult := f.result_apply args
    rw [applied, happly]
    generalize f.apply args = outcome at hresult
    cases hresult with
    | real x => exact Or.inl ⟨_, rfl, (Value.IsElement.real x).isOrdinary⟩
    | text s => exact Or.inl ⟨_, rfl, (Value.IsElement.text s).isOrdinary⟩
    | list => exact Or.inl ⟨_, rfl, Value.leaves_list.mpr hargs⟩
    | overflow => exact Or.inr ⟨_, rfl, Or.inl ⟨.nativeFault head .overflow, rfl, Or.inl rfl⟩⟩
    | tooFew f least => exact Or.inr ⟨_, rfl, Or.inl ⟨_, rfl, Or.inl rfl⟩⟩
    | notANumber f v => exact Or.inr ⟨_, rfl, Or.inl ⟨_, rfl, Or.inl rfl⟩⟩
    | divisionByZero => exact Or.inr ⟨_, rfl, Or.inl ⟨_, rfl, Or.inl rfl⟩⟩
  · rw [applied_of_error happly]
    exact Or.inr ⟨_, rfl, Or.inr rfl⟩

/-- Evaluation does not lead out of ordinary values and calls builtin functions alone. It fails with
errors of evaluation, unless a call exhausts the stack of the host. -/
theorem confines_ordinary (host : Host) (settings : Settings) :
    Confines host settings (Value.IsOrdinary settings.strictUnbound)
      (fun f => f.IsOrdinary settings.strictUnbound ∨ f = .fault .exhausted) IsBuiltinCall where
  nil := Value.IsElement.nil.isOrdinary
  unbound hstrict := (Value.IsElement.unbound hstrict).isOrdinary
  evaluation e hkind := Or.inl ⟨e, rfl, Or.inl hkind⟩
  strict hstrict name := Or.inl ⟨_, rfl, Or.inr ⟨hstrict, rfl⟩⟩
  call head f args hf hargs := by
    cases f with
    | host f => cases (Value.leaves_leaf (by simp)).mp hf
    | builtin f =>
      exact comesTo_call ⟨f, rfl⟩ (applied_builtin host settings.strictUnbound head f hargs)

end Evaluation

namespace Interpreter

/-- A name stands for a builtin function in the root environment of a new interpreter, or for
nothing. -/
theorem lookup_new (settings : Settings) (name : String) :
    (new settings).environments.lookup root name = .unbound ∨
      ∃ f, (new settings).environments.lookup root name = .native (.builtin f) := by
  let Holds (es : Environments) : Prop := root < es.entries.size ∧
    ∀ name, es.lookup root name = .unbound ∨ ∃ f, es.lookup root name = .native (.builtin f)
  have hempty : Holds (Environments.push {} none) := by
    refine ⟨by simp [root, Environments.push], fun name => Or.inl ?_⟩
    exact congrFun (Environments.lookup_push_none {}) name
  have hnew : Holds (new settings).environments := by
    refine List.foldlRecOn Builtin.all _ hempty fun es hes f _ => ?_
    refine ⟨by simpa using hes.1, ?_⟩
    rw [Environments.lookup_define hes.1]
    exact (Function.forall_update_iff (es.lookup root) fun _ (v : Value) =>
      v = .unbound ∨ ∃ f, v = .native (.builtin f)).mpr
        ⟨Or.inr ⟨f, rfl⟩, fun name _ => hes.2 name⟩
  exact hnew.2 name

/-- A form that can be read calls builtin functions alone in the root environment of a new
interpreter. It comes to an ordinary value or failure, unless a call exhausts the stack. -/
theorem comesTo_form (host : Host) (settings : Settings) {limit : Int} {text : String}
    {form : List Value} (h : form ∈ (Form.drain limit (.ofText text)).1) :
    ((Evaluation.evaluate host settings root 0 (.list form)).account
      (new settings).environments).ComesTo (Value.IsOrdinary settings.strictUnbound)
        (fun f => f.IsOrdinary settings.strictUnbound ∨ f = .fault .exhausted)
        IsBuiltinCall := by
  have hliterals : (Value.list form).Literals (Value.IsOrdinary settings.strictUnbound) :=
    Form.good_of_mem_drain Value.literals_lexeme (fun _ => Value.literals_list.mpr) h
  rw [Evaluation.account_evaluate]
  refine (Evaluation.confines_ordinary host settings).comesTo.expression _ hliterals _ 0
    fun name => ?_
  obtain hnone | ⟨f, hf⟩ := lookup_new settings name
  · exact Or.inl hnone
  · rw [hf]
    exact Or.inr (Value.IsElement.builtin f).isOrdinary

end Interpreter

namespace Course

variable (host : Host) (settings : Settings) (env : Nat) (es : Environments)

/-- Every form is evaluated in the environments that there were before. -/
theorem ofForms_cons (form : List Value) (forms : List (List Value)) :
    let first := (Evaluation.evaluate host settings env 0 (.list form)).account es
    ofForms host settings env es (form :: forms) =
      match first.outcome with
      | .ok value => after value first.events (ofForms host settings env es forms)
      | .error failure =>
        { failure := some failure, events := first.events, environments := es } := by
  dsimp only
  rw [ofForms, Evaluation.account_evaluate,
    Evaluation.gives_evaluate host settings es env 0 (.list form) #[], Array.empty_append]
  cases (Evaluation.meaning host settings (es.lookup env) 0 (.list form)).outcome with
  | ok value => rfl
  | error failure => rfl

/-- Forms leave all environments as they are. -/
theorem environments_ofForms (forms : List (List Value)) :
    (ofForms host settings env es forms).environments = es := by
  induction forms with
  | nil => rfl
  | cons form forms ih =>
    rw [ofForms_cons]
    split
    · exact ih
    · rfl

/-- The failure of forms is that of one of them by itself. -/
theorem exists_account_of_failure {forms : List (List Value)} {failure : Failure}
    (h : (ofForms host settings env es forms).failure = some failure) :
    ∃ form ∈ forms, ((Evaluation.evaluate host settings env 0 (.list form)).account es).outcome =
      .error failure := by
  induction forms with
  | nil => cases h
  | cons form forms ih =>
    rw [ofForms_cons] at h
    split at h
    · obtain ⟨found, hfound, houtcome⟩ := ih h
      exact ⟨found, List.mem_cons_of_mem _ hfound, houtcome⟩
    · next failure' houtcome =>
      cases h
      exact ⟨form, List.mem_cons_self, houtcome⟩

/-- A value that comes about is that of one of the forms by itself. -/
theorem exists_account_of_value {forms : List (List Value)} {value : Value}
    (h : value ∈ (ofForms host settings env es forms).values) :
    ∃ form ∈ forms, ((Evaluation.evaluate host settings env 0 (.list form)).account es).outcome =
      .ok value := by
  induction forms with
  | nil => cases h
  | cons form forms ih =>
    rw [ofForms_cons] at h
    split at h
    · next first houtcome =>
      obtain rfl | hlater := List.mem_cons.mp h
      · exact ⟨form, List.mem_cons_self, houtcome⟩
      · obtain ⟨found, hfound, houtcome⟩ := ih hlater
        exact ⟨found, List.mem_cons_of_mem _ hfound, houtcome⟩
    · cases h

/-- A call in the course of some forms is one that some form makes by itself. -/
theorem exists_account_of_call {forms : List (List Value)} {call : Native × List Value}
    (h : call ∈ Event.calls (ofForms host settings env es forms).events) :
    ∃ form ∈ forms, call ∈
      ((Evaluation.evaluate host settings env 0 (.list form)).account es).calls := by
  induction forms with
  | nil => cases h
  | cons form forms ih =>
    rw [ofForms_cons] at h
    split at h
    · rw [after, Event.calls, List.filterMap_append, List.mem_append] at h
      obtain hfirst | hlater := h
      · exact ⟨form, List.mem_cons_self, hfirst⟩
      · obtain ⟨found, hfound, hcall⟩ := ih hlater
        exact ⟨found, List.mem_cons_of_mem _ hfound, hcall⟩
    · exact ⟨form, List.mem_cons_self, h⟩

/-- A fault that blames no arguments ends the course of some forms exactly if a call in it fails
with it. -/
theorem failure_eq_fault_iff (forms : List (List Value)) {fault : Fault}
    (hfamily : fault.family = .other) :
    (ofForms host settings env es forms).failure = some (.fault fault) ↔
      ∃ call ∈ Event.calls (ofForms host settings env es forms).events,
        call.1.apply host call.2 = .error (.fault fault) := by
  induction forms with
  | nil => simp [ofForms, Event.calls]
  | cons form forms ih =>
    have hfirst := Evaluation.account_eq_fault_iff host settings es env 0 (.list form) hfamily
    rw [ofForms_cons]
    split
    · next value houtcome =>
      have hnone : ¬ ∃ call ∈
          ((Evaluation.evaluate host settings env 0 (.list form)).account es).calls,
          call.1.apply host call.2 = .error (.fault fault) := by
        rw [← hfirst, houtcome]
        simp
      rw [after, Event.calls, List.filterMap_append]
      simp only [List.mem_append, or_and_right, exists_or]
      rw [ih]
      exact (or_iff_right hnone).symm
    · next failure houtcome =>
      rw [← Account.calls, ← hfirst, houtcome]
      simp

/-- Forms have values as long as each of them has one by itself. -/
theorem failure_eq_none_iff_forall (forms : List (List Value)) :
    (ofForms host settings env es forms).failure = none ↔
      ∀ form ∈ forms, ∃ value,
        ((Evaluation.evaluate host settings env 0 (.list form)).account es).outcome = .ok value := by
  induction forms with
  | nil => simp [ofForms]
  | cons form forms ih =>
    rw [ofForms_cons, List.forall_mem_cons]
    split
    · next value houtcome => simpa [after, houtcome] using ih
    · next failure houtcome => simp [houtcome]

/-- Forms that all have values make the calls that each of them makes by itself. -/
theorem calls_ofForms {forms : List (List Value)} (h : ∀ form ∈ forms, ∃ value,
    ((Evaluation.evaluate host settings env 0 (.list form)).account es).outcome = .ok value) :
    Event.calls (ofForms host settings env es forms).events = forms.flatMap fun form =>
      ((Evaluation.evaluate host settings env 0 (.list form)).account es).calls := by
  induction forms with
  | nil => rfl
  | cons form forms ih =>
    obtain ⟨⟨value, hvalue⟩, hforms⟩ := List.forall_mem_cons.mp h
    rw [ofForms_cons, hvalue, List.flatMap_cons, ← ih hforms]
    exact List.filterMap_append

end Course

namespace Interpreter

/-- Whether a program exhausts the stack of the host: it calls a function that does, or it comes to a
value that there is no room to display. -/
def Exhausts (host : Host) (i : Interpreter) (code : String) : Prop :=
  (i.run host code).outcome = .error (.fault .exhausted) ∨
    ∃ value, (i.run host code).outcome = .ok value ∧ host.stack.displays value = false

/-- A program exhausts the stack exactly if showing what it comes to does. -/
theorem exhausts_iff {host : Host} {i : Interpreter} {code : String} :
    i.Exhausts host code ↔
      (i.run host code).outcome.bind host.stack.shown = .error (.fault .exhausted) := by
  rw [Exhausts]
  cases (i.run host code).outcome with
  | ok value => simp [Except.bind, HostStack.shown_eq_exhausted_iff]
  | error failure => simp [Except.bind]

variable (host : Host) (settings : Settings) (code : String)

/-- A program of a new interpreter leaves it as it is. It fails with the error of the reader, and
then all the forms before the error have values, or with an error of evaluation, or it exhausts the
stack of the host. -/
theorem run_new :
    let read := Form.drain settings.maxDepth (.ofText code)
    ((new settings).run host code).interpreter = new settings ∧
    ∀ failure, ((new settings).run host code).outcome = .error failure →
      (∃ e, read.2 = some e ∧ failure = .error (.source (e.within code)) ∧
        ((new settings).course host code).failure = none) ∨
      failure.IsOrdinary settings.strictUnbound ∨ failure = .fault .exhausted := by
  obtain ⟨houtcome, -, hinterpreter⟩ := (new settings).run_fields host code
  dsimp only
  refine ⟨?_, fun failure hfailure => ?_⟩
  · rw [hinterpreter, course, Course.environments_ofForms]
  · rw [houtcome] at hfailure
    unfold Course.outcome at hfailure
    split at hfailure
    · next failure' _ hcourse =>
      cases hfailure
      obtain ⟨form, hform, hend⟩ := Course.exists_account_of_failure host settings root _ hcourse
      exact Or.inr ((comesTo_form host settings hform).failure _ hend)
    · next source hcourse hmap =>
      cases hfailure
      obtain ⟨e, hread, rfl⟩ := Option.map_eq_some_iff.mp hmap
      exact Or.inl ⟨e, hread, rfl, hcourse⟩
    · cases hfailure

/-- What a program of a new interpreter comes to is an ordinary value, unless it fails. -/
theorem isOrdinary_of_run_new {value : Value}
    (h : ((new settings).run host code).outcome = .ok value) :
    value.IsOrdinary settings.strictUnbound := by
  obtain ⟨houtcome, -, -⟩ := (new settings).run_fields host code
  rw [houtcome] at h
  unfold Course.outcome at h
  split at h
  · cases h
  · cases h
  · cases h
    cases hlast : ((new settings).course host code).values.getLast? with
    | none => exact Value.IsElement.nil.isOrdinary
    | some value =>
      obtain ⟨form, hform, hend⟩ := Course.exists_account_of_value host settings root _
        (List.mem_of_getLast? hlast)
      exact (comesTo_form host settings hform).value _ hend

/-- A program of a new interpreter exhausts the stack of the host exactly if it calls a builtin
function that shows a value for which there is no room. -/
theorem run_new_eq_exhausted_iff :
    ((new settings).run host code).outcome = .error (.fault .exhausted) ↔
      ∃ f args, (.builtin f, args) ∈ Event.calls ((new settings).run host code).events ∧
        host.stack.takes f args = false := by
  obtain ⟨houtcome, hevents, -⟩ := (new settings).run_fields host code
  have hcourse : ((new settings).run host code).outcome = .error (.fault .exhausted) ↔
      ((new settings).course host code).failure = some (.fault .exhausted) := by
    rw [houtcome]
    unfold Course.outcome
    cases ((new settings).course host code).failure with
    | some failure => simp
    | none => cases (Form.drain (new settings).settings.maxDepth (.ofText code)).2 <;> simp
  rw [hcourse, ← Event.calls_filter, hevents, course, Course.failure_eq_fault_iff _ _ _ _ _ rfl]
  constructor
  · rintro ⟨⟨f, args⟩, hcall, hfails⟩
    obtain ⟨form, hform, hmade⟩ := Course.exists_account_of_call _ _ _ _ hcall
    obtain ⟨builtin, rfl⟩ := (comesTo_form host settings hform).calls _ hmade
    exact ⟨builtin, args, hcall, Native.apply_builtin_eq_exhausted_iff.mp hfails⟩
  · rintro ⟨f, args, hcall, htakes⟩
    exact ⟨_, hcall, Native.apply_builtin_eq_exhausted_iff.mpr htakes⟩

end Interpreter

end Lisplet
