import Lisplet.Value.Basic

/-!
# The shapes of expressions

Evaluation tells expressions apart by their shape: symbols, the empty list, lists that begin with
the word `let`, other lists headed by a symbol, lists headed by anything else, and the rest. It goes
into the arguments of an application and into the bindings and the body of a `let`, and nowhere
else. What follows along these lines holds of every expression.
-/

namespace Lisplet.Value

/-- Something that follows for expressions from the expressions that evaluation goes into. The
second property is about the arguments of an application, the third about the bindings and the body
of a `let`. -/
structure EvaluationInduction (P : Value → Prop) (All Items : List Value → Prop) : Prop where
  symbol : ∀ name, P (.symbol name)
  empty : P (.list [])
  letForm : ∀ items, Items items → P (.list (.symbol "let" :: items))
  application : ∀ name args, name ≠ "let" → All args → P (.list (.symbol name :: args))
  headed : ∀ head tail, (∀ name, head ≠ .symbol name) → P (.list (head :: tail))
  leaf : ∀ v, (∀ name, v ≠ .symbol name) → (∀ items, v ≠ .list items) → P v
  nil : All []
  cons : ∀ v rest, P v → All rest → All (v :: rest)
  bodyless : Items []
  body : ∀ v, P v → Items [v]
  binding : ∀ name v rest, rest ≠ [] → P v → Items rest →
    Items (.list [.symbol name, v] :: rest)
  malformed : ∀ v rest, rest ≠ [] → (∀ name expr, v ≠ .list [.symbol name, expr]) →
    Items (v :: rest)

/-- A value is a list that binds a name, or it is not. -/
theorem binding_or_malformed (v : Value) :
    (∃ name expr, v = .list [.symbol name, expr]) ∨
      ∀ name expr, v ≠ .list [.symbol name, expr] := by
  by_cases h : ∃ name expr, v = .list [.symbol name, expr]
  · exact Or.inl h
  · exact Or.inr fun name expr hv => h ⟨name, expr, hv⟩

namespace EvaluationInduction

variable {P : Value → Prop} {All Items : List Value → Prop}

mutual

/-- What follows along the lines of evaluation holds of every expression. -/
theorem expression (h : EvaluationInduction P All Items) (v : Value) : P v := by
  match v with
  | .symbol name => exact h.symbol name
  | .list [] => exact h.empty
  | .list (head :: tail) =>
    cases head with
    | symbol name =>
      by_cases hname : name = "let"
      · subst hname
        exact h.letForm tail (h.items tail)
      · exact h.application name tail hname (h.arguments tail)
    | _ => exact h.headed _ tail (by simp)
  | .number _ => exact h.leaf _ (by simp) (by simp)
  | .text _ => exact h.leaf _ (by simp) (by simp)
  | .nil => exact h.leaf _ (by simp) (by simp)
  | .unbound => exact h.leaf _ (by simp) (by simp)
  | .absent => exact h.leaf _ (by simp) (by simp)
  | .truth _ => exact h.leaf _ (by simp) (by simp)
  | .native _ => exact h.leaf _ (by simp) (by simp)
termination_by sizeOf v

/-- What follows along the lines of evaluation holds of all arguments. -/
theorem arguments (h : EvaluationInduction P All Items) (args : List Value) : All args := by
  match args with
  | [] => exact h.nil
  | v :: rest => exact h.cons v rest (h.expression v) (h.arguments rest)
termination_by sizeOf args

/-- What follows along the lines of evaluation holds of all bindings and bodies. -/
theorem items (h : EvaluationInduction P All Items) (items : List Value) : Items items := by
  match items with
  | [] => exact h.bodyless
  | [v] => exact h.body v (h.expression v)
  | v :: next :: rest =>
    obtain ⟨name, expr, rfl⟩ | hmalformed := binding_or_malformed v
    · exact h.binding name expr _ (by simp) (h.expression expr) (h.items (next :: rest))
    · exact h.malformed v _ (by simp) hmalformed
termination_by sizeOf items

end

end EvaluationInduction

end Lisplet.Value
