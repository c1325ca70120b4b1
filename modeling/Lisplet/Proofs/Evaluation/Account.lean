import Lisplet.Event
import Lisplet.Proofs.Evaluation.Keeps

/-!
# Accounts

What a computation comes to that reads its environment and changes nothing: its outcome, and the
events on the way. An account can be told without a machine, so two evaluations can be compared by
their accounts alone.
-/

namespace Lisplet

/-- What a computation comes to, and the events on the way. -/
structure Account (α : Type) where
  outcome : Except Failure α
  events : List Event

namespace Account

variable {α β : Type}

/-- Go on with the value of an account, unless it ends in a failure. -/
def andThen (c : Account α) (next : α → Account β) : Account β :=
  match c.outcome with
  | .ok a => ⟨(next a).outcome, c.events ++ (next a).events⟩
  | .error f => ⟨.error f, c.events⟩

instance : Monad Account where
  pure a := ⟨.ok a, []⟩
  bind := andThen

/-- The account of an event. -/
def record (event : Event) : Account Unit := ⟨.ok (), [event]⟩

/-- The account of an evaluation error. -/
def fail (e : EvalError) : Account α := ⟨.error e.toFailure, []⟩

/-- The account of looking up a name that stands for a value. -/
def resolve (settings : Settings) (name : String) : Value → Account Value
  | .unbound => if settings.strictUnbound then fail (.unbound name) else pure .unbound
  | value => pure value

/-- What applying a native function under a head symbol comes to. -/
def applied (host : Host) (head : String) (f : Native) (args : List Value) :
    Except Failure Value :=
  match f.apply host args with
  | .ok value => .ok value
  | .error (.fault fault) =>
    .error (if fault.blamesArguments then (EvalError.nativeFault head fault).toFailure
      else .fault fault)
  | .error (.error e) => .error (.error e)

/-- The account of applying a native function under a head symbol. -/
def call (host : Host) (head : String) (f : Native) (args : List Value) : Account Value :=
  ⟨applied host head f args, [.called f args]⟩

/-- The account of a list headed by something other than a symbol. -/
def headValue (head : Value) (tail : List Value) : Account Value :=
  match head with
  | .number _ => if tail.isEmpty then pure head else fail (.primitiveApplied head)
  | .text _ => if tail.isEmpty then pure head else fail (.primitiveApplied head)
  | _ => fail (.cannotApply head)

/-- The calls of native functions in an account. -/
def calls (c : Account α) : List (Native × List Value) := Event.calls c.events

@[simp] theorem outcome_pure (a : α) : (pure a : Account α).outcome = .ok a := rfl

@[simp] theorem events_pure (a : α) : (pure a : Account α).events = [] := rfl

/-- An account with a value goes on. -/
theorem bind_of_ok {c : Account α} {a : α} (h : c.outcome = .ok a) (next : α → Account β) :
    c >>= next = ⟨(next a).outcome, c.events ++ (next a).events⟩ := by
  simp only [bind, andThen, h]

/-- An account of a failure ends there. -/
theorem bind_of_error {c : Account α} {f : Failure} (h : c.outcome = .error f)
    (next : α → Account β) : c >>= next = ⟨.error f, c.events⟩ := by
  simp only [bind, andThen, h]

/-- The events of an account begin the events of what goes on from it. -/
theorem events_prefix_bind (c : Account α) (next : α → Account β) :
    c.events <+: (c >>= next).events := by
  cases houtcome : c.outcome with
  | error f => exact ⟨[], by rw [bind_of_error houtcome, List.append_nil]⟩
  | ok a => exact ⟨(next a).events, by rw [bind_of_ok houtcome]⟩

/-- The calls of accounts in turn. -/
theorem calls_bind_of_ok {c : Account α} {a : α} (h : c.outcome = .ok a)
    (next : α → Account β) : (c >>= next).calls = c.calls ++ (next a).calls := by
  rw [bind_of_ok h, calls, Event.calls, List.filterMap_append]
  rfl

/-- An account of a failure has no calls behind the failure. -/
theorem calls_bind_of_error {c : Account α} {f : Failure} (h : c.outcome = .error f)
    (next : α → Account β) : (c >>= next).calls = c.calls :=
  congrArg calls (bind_of_error h next)

/-- The calls of an account begin the calls of what goes on from it. -/
theorem calls_prefix_bind (c : Account α) (next : α → Account β) :
    c.calls <+: (c >>= next).calls := (events_prefix_bind c next).filterMap _

/-- Looking up a name comes to the value that it stands for, or to the error of strict mode. -/
theorem resolve_pure_or_fail (settings : Settings) (name : String) (value : Value) :
    resolve settings name value = pure value ∨ value = .unbound ∧ settings.strictUnbound = true ∧
      resolve settings name value = fail (.unbound name) := by
  cases value with
  | unbound =>
    rw [resolve]
    split
    · next hstrict => exact Or.inr ⟨rfl, hstrict, rfl⟩
    · exact Or.inl rfl
  | _ => exact Or.inl rfl

/-- A list that applies nothing comes to its head, which then is no list itself, or to an error of
evaluation. -/
theorem headValue_pure_or_fail (head : Value) (tail : List Value) :
    (∀ items, head ≠ .list items) ∧ headValue head tail = pure head ∨
      ∃ e : EvalError, e.kind = .evaluation ∧ headValue head tail = fail e := by
  cases head with
  | number n =>
    cases tail with
    | nil => exact Or.inl ⟨by simp, rfl⟩
    | cons => exact Or.inr ⟨.primitiveApplied (.number n), rfl, rfl⟩
  | text s =>
    cases tail with
    | nil => exact Or.inl ⟨by simp, rfl⟩
    | cons => exact Or.inr ⟨.primitiveApplied (.text s), rfl, rfl⟩
  | _ => exact Or.inr ⟨.cannotApply _, rfl, rfl⟩

/-- Nothing happens in a list that applies nothing. -/
theorem events_headValue (head : Value) (tail : List Value) :
    (headValue head tail).events = [] := by
  obtain ⟨-, h⟩ | ⟨e, -, h⟩ := headValue_pure_or_fail head tail
  · rw [h, events_pure]
  · rw [h, fail]

end Account

namespace Evaluation

variable {α β : Type} {es : Environments}

/-- What a computation comes to on environments when nothing has been recorded before. -/
def account (c : Evaluation α) (es : Environments) : Account α :=
  ⟨(c.run { environments := es }).1, (c.run { environments := es }).2.events.toList⟩

/-- A computation that leaves environments as they are and has an account of its own, whatever has
been recorded before. -/
def Gives (es : Environments) (c : Evaluation α) (a : Account α) : Prop :=
  ∀ record, c.run ⟨es, record⟩ = (a.outcome, ⟨es, record ++ a.events.toArray⟩)

/-- The account of a computation is the one it gives. -/
theorem Gives.account_eq {c : Evaluation α} {a : Account α} (h : Gives es c a) :
    c.account es = a := by
  rw [account, h #[], Array.empty_append]

/-- Giving a value. -/
theorem gives_pure (a : α) : Gives es (pure a) (pure a) := fun _ => by simp; rfl

/-- Failing with an evaluation error. -/
theorem gives_fail (e : EvalError) : Gives es (fail e : Evaluation α) (.fail e) := fun _ => by
  simp [Account.fail]
  rfl

/-- Recording an event. -/
theorem gives_record (event : Event) : Gives es (record event) (.record event) := fun _ => by
  simp [Account.record]
  rfl

/-- Computations in turn give their accounts in turn. -/
theorem Gives.bind {c : Evaluation α} {next : α → Evaluation β} {a : Account α}
    {nextAccount : α → Account β} (hc : Gives es c a)
    (hnext : ∀ v, Gives es (next v) (nextAccount v)) :
    Gives es (c >>= next) (a >>= nextAccount) := by
  intro record
  rw [run_bind, hc record]
  cases houtcome : a.outcome with
  | error f => rw [Account.bind_of_error houtcome]
  | ok v => simp [Account.bind_of_ok houtcome, hnext v _]

/-- Looking up a name. -/
theorem gives_resolve (settings : Settings) (env : Nat) (name : String) :
    Gives es (resolve settings env name) (.resolve settings name (es.lookup env name)) := by
  intro record
  have hrun : (resolve settings env name).run ⟨es, record⟩ =
      (match es.lookup env name with
        | .unbound => if settings.strictUnbound then fail (.unbound name) else return .unbound
        | value => return value : Evaluation Value).run ⟨es, record⟩ := rfl
  rw [hrun]
  generalize es.lookup env name = value
  cases value with
  | unbound =>
    rw [Account.resolve]
    dsimp only
    split
    · exact gives_fail _ record
    · exact gives_pure _ record
  | _ => exact gives_pure _ record

/-- Applying a native function. -/
theorem gives_call (host : Host) (head : String) (f : Native) (args : List Value) :
    Gives es (call host head f args) (.call host head f args) := by
  intro record
  rw [call, run_bind]
  unfold Account.call Account.applied
  cases f.apply host args with
  | ok value => simp; rfl
  | error failure =>
    cases failure with
    | error e => simp; rfl
    | fault fault => by_cases hblames : fault.blamesArguments <;> simp [hblames] <;> rfl

/-- A list that applies nothing. -/
theorem gives_headValue (head : Value) (tail : List Value) :
    Gives es (headValue head tail) (.headValue head tail) := by
  unfold headValue Account.headValue
  cases head with
  | number n =>
    dsimp only
    split
    · exact gives_pure _
    · exact gives_fail _
  | text s =>
    dsimp only
    split
    · exact gives_pure _
    · exact gives_fail _
  | _ => exact gives_fail _

end Evaluation

end Lisplet
