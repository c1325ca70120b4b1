import Lisplet.Proofs.Evaluation.Keeps
import Lisplet.Proofs.Evaluation.Laws
import Lisplet.Proofs.Interpreter.Course
import Lisplet.Proofs.Native.Results
import Lisplet.Session

/-!
# Who reports a text unbalanced

A session takes a program for unfinished when the program fails as unbalanced. Evaluation never
fails like that by itself, so only the reader makes a session wait for more, unless a function of
the host program reports such an error as its own.
-/

namespace Lisplet.Session

variable {host : Host}

/-- A failure that does not say that a text is unbalanced, unless a function of the host reports
it. -/
def BlamesHost (host : Host) (failure : Failure) : Prop :=
  isUnbalanced failure = true → ∃ f args, host.call f args = .error failure

/-- Errors of evaluation are about no text. -/
theorem blamesHost_toFailure (e : EvalError) : BlamesHost host e.toFailure := by
  intro h
  cases h

/-- Functions report a text unbalanced only when they are of the host. -/
theorem blamesHost_of_apply {f : Native} {args : List Value} {failure : Failure}
    (h : f.apply host args = .error failure) : BlamesHost host failure := by
  cases f with
  | host f => exact fun _ => ⟨f, args, h⟩
  | builtin f =>
    intro hunbalanced
    obtain happly | ⟨-, happly⟩ := Native.apply_builtin host f args
    · have hresult := f.result_apply args
      rw [← happly, h] at hresult
      cases hresult <;> cases hunbalanced
    · cases h.symm.trans happly
      cases hunbalanced

/-- Evaluating an expression never reports a text unbalanced but through the host. -/
theorem blamesHost_law (host : Host) (settings : Settings) :
    Evaluation.Law host settings fun _ c =>
      Evaluation.Keeps (fun _ => True) (fun _ => True) (BlamesHost host) c where
  pure _ := Evaluation.keeps_pure trivial
  bind hc hnext := Evaluation.keeps_bind hc fun a _ => hnext a
  fail e := Evaluation.keeps_fail (blamesHost_toFailure e)
  record _ _ := Evaluation.keeps_modify fun _ _ => trivial
  resolve env name := by
    refine Evaluation.keeps_get fun m _ => ?_
    split
    · split
      · exact Evaluation.keeps_fail (blamesHost_toFailure _)
      · exact Evaluation.keeps_pure trivial
    · exact Evaluation.keeps_pure trivial
  define _ _ _ := Evaluation.keeps_modify fun _ _ => trivial
  inScope _ _ hbody :=
    Evaluation.keeps_inScope (fun _ _ => trivial) (fun _ _ => trivial) hbody
  native h := Evaluation.keeps_throw (blamesHost_of_apply h)

/-- A program that is read to its end never fails as unbalanced but through the host. -/
theorem blamesHost_of_run {i : Interpreter} {code : String} {failure : Failure}
    (hread : (Form.drain i.settings.maxDepth (.ofText code)).2 = none)
    (h : (i.run host code).outcome = .error failure) : BlamesHost host failure := by
  rw [(i.run_fields host code).1, hread, Option.map_none] at h
  cases hfailure : (i.course host code).failure with
  | none => simp [Course.outcome, hfailure] at h
  | some failure' =>
    obtain rfl : failure' = failure := by simpa [Course.outcome, hfailure] using h
    obtain ⟨form, m, hrun⟩ := Course.exists_of_failure host _ _ hfailure
    obtain ⟨-, hend⟩ := (blamesHost_law host i.settings).evaluate Interpreter.root 0 (.list form) m
      trivial
    rw [hrun] at hend
    exact hend

end Lisplet.Session
