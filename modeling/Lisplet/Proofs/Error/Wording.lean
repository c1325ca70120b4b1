import Lisplet.Error.Evaluation

/-!
# The wording of errors

The words that report an evaluation that is too deep belong to that error alone. Only a host
program can say the same.
-/

namespace Lisplet

/-- Whether a failure reports that an evaluation is too deep. -/
def Failure.ReportsDepth : Failure → Prop
  | .error e => e.message = EvalError.tooDeep.message
  | .fault _ => False

namespace EvalError

/-- Words that start in another way, or hold a character that is not in the report of the depth,
are other words. -/
theorem ne_message_tooDeep {words : String}
    (h : words.toList.head? ≠ some 'm' ∨ ':' ∈ words.toList) : words ≠ tooDeep.message := by
  intro heq
  rw [heq] at h
  exact absurd h (by decide)

/-- Only an error in a host program's words reports the depth in the words of the language. -/
theorem message_eq_tooDeep_iff {e : EvalError} :
    e.message = tooDeep.message ↔
      e = .tooDeep ∨ ∃ kind, e = .stated kind tooDeep.message := by
  constructor
  · intro h
    cases e with
    | tooDeep => exact Or.inl rfl
    | stated kind words =>
      have hwords : words = tooDeep.message := h
      exact Or.inr ⟨kind, by rw [hwords]⟩
    | unbound name =>
      have hwords : "Cannot lookup unbound symbol " ++ name = tooDeep.message := h
      exact absurd hwords (ne_message_tooDeep (Or.inl (by simp)))
    | notAName value =>
      have hwords : "Cannot bind " ++ value.inspect ++ ": not a symbol" = tooDeep.message := h
      exact absurd hwords (ne_message_tooDeep (Or.inl (by simp)))
    | letWithoutBody =>
      have hwords : "malformed let: missing body" = tooDeep.message := h
      exact absurd hwords (ne_message_tooDeep (Or.inr (by simp)))
    | malformedBinding binding =>
      have hwords : "malformed let binding: " ++ binding.inspect = tooDeep.message := h
      exact absurd hwords (ne_message_tooDeep (Or.inr (by simp)))
    | primitiveApplied head =>
      have hwords : "primitives are not callable: " ++ head.inspect = tooDeep.message := h
      exact absurd hwords (ne_message_tooDeep (Or.inl (by simp)))
    | cannotApply head =>
      have hwords : "unsupported construct: cannot apply " ++ head.inspect = tooDeep.message := h
      exact absurd hwords (ne_message_tooDeep (Or.inl (by simp)))
    | tooFewArguments f least =>
      have hwords : f.symbol ++ " requires at least " ++ least.repr ++
          (if least = 1 then " argument" else " arguments") = tooDeep.message := h
      exact absurd hwords (ne_message_tooDeep (Or.inl (by cases f <;> simp [Builtin.symbol])))
    | notANumber f argument =>
      have hwords : "All arguments to " ++ f.symbol ++ " must be numbers, got " ++
          argument.inspect = tooDeep.message := h
      exact absurd hwords (ne_message_tooDeep (Or.inl (by simp)))
    | divisionByZero =>
      have hwords : "/ division by zero" = tooDeep.message := h
      exact absurd hwords (ne_message_tooDeep (Or.inl (by simp)))
    | nativeFault head fault =>
      have hwords : head ++ ": " ++ fault.text = tooDeep.message := h
      exact absurd hwords (ne_message_tooDeep (Or.inr (by simp)))
  · rintro (rfl | ⟨kind, rfl⟩) <;> rfl

/-- No other error of the language's own reports the depth. -/
theorem not_reportsDepth {e : EvalError} (h : e ≠ .tooDeep)
    (hwords : ∀ kind words, e ≠ .stated kind words) : ¬ e.toFailure.ReportsDepth := by
  intro hreport
  obtain rfl | ⟨kind, rfl⟩ := message_eq_tooDeep_iff.mp hreport
  · exact h rfl
  · exact hwords kind _ rfl

end EvalError

end Lisplet
