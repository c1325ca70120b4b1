import Lisplet.Environment
import Lisplet.Proofs.Value.Leaves

/-!
# What environments hold

Environments that hold only allowed host functions go on doing so when environments come and go
and when values with only allowed host functions are bound; a name then never stands for any
other host function.
-/

namespace Lisplet

variable {allowed : HostFunction → Prop}

/-- Bound values come from the bindings before or are the value bound last. -/
theorem Bindings.exists_of_get?_put {name other : String} {value found : Value}
    {bindings : Bindings} (h : (bindings.put name value).get? other = some found) :
    found = value ∨ bindings.get? other = some found := by
  by_cases heq : other = name
  · subst heq
    rw [Bindings.get?_put_self] at h
    exact Or.inl (Option.some.inj h).symm
  · rw [Bindings.get?_put_of_ne heq] at h
    exact Or.inr h

namespace Environments

/-- Environments in which every bound value uses only allowed host functions. -/
def HoldOnly (allowed : HostFunction → Prop) (es : Environments) : Prop :=
  ∀ e name value, (es.bindings e).get? name = some value → value.UsesOnly allowed

/-- A new environment holds nothing. -/
theorem HoldOnly.push {es : Environments} (h : es.HoldOnly allowed) (outer : Option Nat) :
    (es.push outer).HoldOnly allowed := by
  intro e name value hvalue
  apply h e name value
  rw [bindings, Environments.push, Array.getElem?_push] at hvalue
  split at hvalue
  · cases hvalue
  · exact hvalue

/-- Without the newest environment there is not more than before. -/
theorem HoldOnly.pop {es : Environments} (h : es.HoldOnly allowed) : es.pop.HoldOnly allowed := by
  intro e name value hvalue
  apply h e name value
  rw [bindings, Environments.pop, Array.getElem?_pop] at hvalue
  split at hvalue
  · exact hvalue
  · cases hvalue

/-- A binding adds the value bound. -/
theorem HoldOnly.define {es : Environments} (h : es.HoldOnly allowed) (scope : Nat)
    (name : String) {value : Value} (hvalue : value.UsesOnly allowed) :
    (es.define scope name value).HoldOnly allowed := by
  intro e other found hfound
  have hbindings : (es.define scope name value).bindings e =
      ((es.entries[e]?.map fun entry =>
        if scope = e then entry.bindings.put name value else entry.bindings).getD []) := by
    rw [bindings, Environments.define, Array.getElem?_modify]
    cases es.entries[e]? <;> by_cases hscope : scope = e <;> simp [hscope]
  rw [hbindings] at hfound
  have hold := h e other found
  rw [bindings] at hold
  cases hentry : es.entries[e]? with
  | none => simp [hentry, Bindings.get?] at hfound
  | some entry =>
    simp only [hentry, Option.map_some, Option.getD_some] at hfound hold
    split at hfound
    · obtain rfl | hbefore := Bindings.exists_of_get?_put hfound
      · exact hvalue
      · exact hold hbefore
    · exact hold hfound

/-- A name stands for a value that is bound or for nothing. -/
theorem HoldOnly.lookup {es : Environments} (h : es.HoldOnly allowed) (e : Nat) (name : String) :
    (es.lookup e name).UsesOnly allowed := by
  rw [Environments.lookup]
  cases hfound : (es.chain e).findSome? fun i => (es.bindings i).get? name with
  | none => simp [Value.UsesOnly, Value.Leaves]
  | some value =>
    obtain ⟨i, -, hi⟩ := List.exists_of_findSome?_eq_some hfound
    exact h i name value hi

end Environments

end Lisplet
