import Lisplet.Evaluation

/-!
# Laws of evaluation

What holds of each single step of evaluation, of computations in turn and of computations in a
scope holds of the evaluation of every expression, whatever environment it starts in and however
deep it is.
-/

namespace Lisplet

/-- Whether an event happens while an expression is evaluated. The others happen around that. -/
def Event.isOfEvaluation : Event → Bool
  | .evaluating _ => true
  | .called .. => true
  | .token _ => false
  | .parsed _ => false
  | .result _ => false

namespace Evaluation

/-- A property of computations that every step of evaluation has and that putting computations
together keeps. -/
structure Law (host : Host) (settings : Settings) (L : (α : Type) → Evaluation α → Prop) :
    Prop where
  pure : ∀ {α : Type} (a : α), L α (pure a)
  bind : ∀ {α β : Type} {c : Evaluation α} {next : α → Evaluation β}, L α c →
    (∀ a, L β (next a)) → L β (c >>= next)
  fail : ∀ {α : Type} (e : EvalError), L α (fail e)
  record : ∀ event : Event, event.isOfEvaluation = true → L Unit (record event)
  resolve : ∀ env name, L Value (resolve settings env name)
  define : ∀ scope name value,
    L Unit (updateEnvironments fun es => es.define scope name value)
  inScope : ∀ {α : Type} (env : Nat) {body : Nat → Evaluation α}, (∀ scope, L α (body scope)) →
    L α (inScope env body)
  native : ∀ {f : Native} {args : List Value} {failure : Failure},
    f.apply host args = .error failure → L Value (throw failure)

namespace Law

variable {host : Host} {settings : Settings} {L : (α : Type) → Evaluation α → Prop}

/-- A law holds of calls of native functions. -/
theorem call (law : Law host settings L) (head : String) (f : Native) (args : List Value) :
    L Value (Evaluation.call host head f args) := by
  unfold Evaluation.call
  refine law.bind (law.record _ rfl) fun _ => ?_
  split
  · exact law.pure _
  · next fault h =>
    split
    · exact law.fail _
    · exact law.native h
  · next e h => exact law.native h

/-- A law holds of lists that apply nothing. -/
theorem headValue (law : Law host settings L) (head : Value) (tail : List Value) :
    L Value (Evaluation.headValue head tail) := by
  unfold Evaluation.headValue
  split
  · split
    · exact law.pure _
    · exact law.fail _
  · split
    · exact law.pure _
    · exact law.fail _
  · exact law.fail _

mutual

/-- A law holds of the evaluation of an expression. -/
theorem evaluate (law : Law host settings L) (env depth : Nat) (expr : Value) :
    L Value (Evaluation.evaluate host settings env depth expr) := by
  unfold Evaluation.evaluate
  split
  · exact law.fail _
  · split
    · exact law.resolve env _
    · exact law.pure _
    · next head tail =>
      refine law.bind (law.record _ rfl) fun _ => ?_
      split
      · next name =>
        split
        · split
          · exact law.fail _
          · exact law.inScope env fun scope => law.evaluateLet scope (depth + 1) tail
        · refine law.bind (law.resolve env name) fun value => ?_
          split
          · exact law.bind (law.evaluateAll env (depth + 1) tail) fun args => law.call name _ args
          · exact law.pure _
      · exact law.headValue head tail
    · exact law.pure _

/-- A law holds of the evaluation of expressions from left to right. -/
theorem evaluateAll (law : Law host settings L) (env depth : Nat) (exprs : List Value) :
    L (List Value) (Evaluation.evaluateAll host settings env depth exprs) := by
  unfold Evaluation.evaluateAll
  split
  · exact law.pure _
  · next expr rest =>
    refine law.bind (law.evaluate env depth expr) fun value => ?_
    exact law.bind (law.evaluateAll env depth rest) fun values => law.pure _

/-- A law holds of the bindings and the body of a `let`. -/
theorem evaluateLet (law : Law host settings L) (scope depth : Nat) (exprs : List Value) :
    L Value (Evaluation.evaluateLet host settings scope depth exprs) := by
  unfold Evaluation.evaluateLet
  split
  · exact law.fail _
  · next body => exact law.evaluate scope depth body
  · next binding rest _ =>
    split
    · next name expr =>
      refine law.bind (law.evaluate scope depth expr) fun value => ?_
      exact law.bind (law.define scope name value) fun _ => law.evaluateLet scope depth rest
    · exact law.fail _

end

end Law

end Evaluation

end Lisplet
