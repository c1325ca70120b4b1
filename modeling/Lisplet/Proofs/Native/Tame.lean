import Lisplet.Proofs.Error.Wording
import Lisplet.Proofs.Native.Results
import Lisplet.Proofs.Value.Leaves

/-!
# Tame functions

A native function is tame when it brings no host function into play that is not among the allowed
ones, and never reports an evaluation that is too deep. The builtin functions are tame whatever is
allowed; of the host program this has to be asked.
-/

namespace Lisplet

/-- A result that brings only allowed host functions into play and does not report the depth. -/
def Tame (allowed : HostFunction → Prop) : Except Failure Value → Prop
  | .ok value => value.UsesOnly allowed
  | .error f => ¬ f.ReportsDepth

/-- A host program whose allowed functions are tame when they are given nothing else. -/
def Host.IsTame (allowed : HostFunction → Prop) (host : Host) : Prop :=
  ∀ f args, allowed f → (∀ v ∈ args, v.UsesOnly allowed) → Tame allowed (host.call f args)

namespace Builtin

variable {allowed : HostFunction → Prop}

/-- The builtin functions are tame when they are given only allowed host functions. -/
theorem tame_apply (f : Builtin) {args : List Value} (hargs : ∀ v ∈ args, v.UsesOnly allowed) :
    Tame allowed (f.apply args) := by
  have hresult := f.result_apply args
  generalize f.apply args = r at hresult
  cases hresult with
  | real x => simp [Tame, Value.real, Value.UsesOnly, Value.Leaves]
  | text s => simp [Tame, Value.UsesOnly, Value.Leaves]
  | list => exact Value.usesOnly_list.mpr hargs
  | overflow => simp [Tame, Failure.ReportsDepth]
  | tooFew f least => exact EvalError.not_reportsDepth (by simp) (by simp)
  | notANumber f v => exact EvalError.not_reportsDepth (by simp) (by simp)
  | divisionByZero => exact EvalError.not_reportsDepth (by simp) (by simp)

end Builtin

/-- Native functions are tame if the host program is. -/
theorem Native.tame_apply {allowed : HostFunction → Prop} {host : Host}
    (hhost : host.IsTame allowed) {f : Native} (hf : (Value.native f).UsesOnly allowed)
    {args : List Value} (hargs : ∀ v ∈ args, v.UsesOnly allowed) :
    Tame allowed (f.apply host args) := by
  cases f with
  | builtin f =>
    obtain h | ⟨-, h⟩ := Native.apply_builtin host f args
    · rw [h]
      exact f.tame_apply hargs
    · rw [h]
      exact fun hdepth => hdepth
  | host f => exact hhost f args (Value.usesOnly_host.mp hf) hargs

end Lisplet
