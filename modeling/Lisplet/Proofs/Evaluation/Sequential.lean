import Lisplet.Interpreter
import Lisplet.Proofs.Evaluation.Limit

/-!
# Bindings in sequence

A `let` makes its bindings one after the other in a single environment. The same comes about when
every binding has a `let` of its own around the rest: the environments then form a chain, and a name
that is bound twice is shadowed where it would be overwritten. The lets inside one another only go
deeper, so the depth limit can tell the two forms apart, and nothing else can.
-/

namespace Lisplet

namespace Value

/-- One `let` that makes some bindings around a body. -/
def flatLet (bindings : List Value) (body : Value) : Value :=
  .list (.symbol "let" :: (bindings ++ [body]))

/-- A `let` for each of some bindings, one inside the other, around a body. -/
def nestedLet : List Value → Value → Value
  | [], body => body
  | binding :: bindings, body => .list [.symbol "let", binding, nestedLet bindings body]

end Value

namespace Evaluation

open Account Value

variable {host : Host} {settings : Settings}

/-- Going deeper, an expression means the same in a scope, unless the limit breaks its evaluation
off on the way. -/
theorem upToLimit_deeper (host : Host) (settings : Settings) (expr : Value) (scope : Scope)
    {depth depth' : Nat} (h : depth' ≤ depth) :
    UpToLimit host (meaning host settings scope depth expr)
      (meaning host settings scope depth' expr) :=
  (upToLimit_of_room host rfl).expression expr scope depth depth' (by omega)

/-- A binding with the rest in a `let` below it is made like a binding with the rest behind it, if
the rest comes to the same in both forms. -/
theorem upToLimit_first {bindings : List Value} {body : Value}
    (hrest : ∀ (scope : Scope) (depth depth' : Nat), depth' ≤ depth →
      UpToLimit host (meaning host settings scope depth (nestedLet bindings body))
        (meaningLet host settings scope depth' (bindings ++ [body])))
    (binding : Value) (scope : Scope) {depth depth' : Nat} (h : depth' ≤ depth) :
    UpToLimit host (meaningLet host settings scope depth [binding, nestedLet bindings body])
      (meaningLet host settings scope depth' (binding :: (bindings ++ [body]))) := by
  have hflat : bindings ++ [body] ≠ [] := by simp
  have hnested : [nestedLet bindings body] ≠ [] := by simp
  obtain ⟨name, expr, rfl⟩ | hmalformed := binding_or_malformed binding
  · rw [meaningLet_binding name expr hnested, meaningLet_binding name expr hflat]
    refine (upToLimit_deeper host settings expr scope h).bind fun value => ?_
    rw [meaningLet_body]
    exact hrest _ depth depth' h
  · rw [meaningLet_malformed hnested hmalformed, meaningLet_malformed hflat hmalformed]
    exact upToLimit_of_no_calls rfl rfl rfl

/-- Lets inside one another come to what the bindings of a single `let` and its body come to,
unless the limit breaks them off. -/
theorem upToLimit_nestedLet (bindings : List Value) (body : Value) (scope : Scope)
    (depth depth' : Nat) (h : depth' ≤ depth) :
    UpToLimit host (meaning host settings scope depth (nestedLet bindings body))
      (meaningLet host settings scope depth' (bindings ++ [body])) := by
  induction bindings generalizing scope depth depth' with
  | nil =>
    rw [List.nil_append, meaningLet_body]
    exact upToLimit_deeper host settings body scope h
  | cons binding bindings ih =>
    by_cases hlevel : (depth : Int) ≤ settings.maxDepth
    · rw [nestedLet, meaning_let hlevel]
      exact (upToLimit_first ih binding scope (by omega)).after_evaluating_deeper
    · rw [meaning_of_lt (by omega)]
      exact upToLimit_tooDeep _

/-- With a binding at least, lets inside one another go deeper than a single one. -/
theorem upToLimit_nestedLet_flatLet (binding : Value) (bindings : List Value) (body : Value)
    (scope : Scope) (depth : Nat) :
    UpToLimit host (meaning host settings scope depth (nestedLet (binding :: bindings) body))
      (meaning host settings scope depth (flatLet (binding :: bindings) body)) := by
  refine within_limit (by omega) fun h _ => ?_
  rw [nestedLet, flatLet, meaning_let h, meaning_let h]
  exact (upToLimit_first (upToLimit_nestedLet bindings body) binding scope
    (by omega)).after_evaluating

/-- Without a binding, a `let` goes deeper than its body. -/
theorem upToLimit_flatLet_body (body : Value) (scope : Scope) (depth : Nat) :
    UpToLimit host (meaning host settings scope depth (flatLet [] body))
      (meaning host settings scope depth body) := by
  refine within_limit (by omega) fun h _ => ?_
  rw [flatLet, meaning_let h, List.nil_append, meaningLet_body]
  exact (upToLimit_deeper host settings body scope (by omega)).after_evaluating_deeper

end Evaluation

end Lisplet
