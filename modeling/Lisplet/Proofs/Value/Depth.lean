import Lisplet.HostStack
import Mathlib.Data.Nat.Notation

/-!
# The room for a value

A list is one deeper than the deepest of its items. A value is displayed exactly if it is no deeper
than the room on the stack, and where there is no bound every value is.
-/

namespace Lisplet

namespace Value

/-- A list is one deeper than the deepest of its items. -/
@[simp] theorem depth_list (items : List Value) :
    (Value.list items).depth = depthAll items + 1 := by
  rw [depth]

/-- No values have no depth. -/
@[simp] theorem depthAll_nil : depthAll [] = 0 := by
  rw [depthAll]

/-- The deepest of some values is the first or among the others. -/
@[simp] theorem depthAll_cons (item : Value) (rest : List Value) :
    depthAll (item :: rest) = max item.depth (depthAll rest) := by
  rw [depthAll]

end Value

namespace HostStack

variable {stack : HostStack} {v : Value}

/-- A bounded stack displays exactly the values that are no deeper than its room. -/
theorem displays_iff {room : ℕ} (h : stack.display = some room) :
    stack.displays v = true ↔ v.depth ≤ room := by
  rw [displays, h, Option.all_some, decide_eq_true_iff]

/-- There is always the room for the empty value. -/
theorem displays_nil : stack.displays .nil = true := by
  rw [displays, Option.all_eq_true]
  exact fun room _ => decide_eq_true (Nat.zero_le room)

/-- What there is the room for is shown as it is displayed. -/
theorem shown_of_displays (h : stack.displays v = true) : stack.shown v = .ok v.display :=
  if_pos h

/-- What there is no room for exhausts the stack. -/
theorem shown_of_not_displays (h : stack.displays v = false) :
    stack.shown v = .error (.fault .exhausted) := by
  rw [shown, h, if_neg Bool.false_ne_true]

/-- Showing a value exhausts the stack exactly if there is no room for it. -/
theorem shown_eq_exhausted_iff :
    stack.shown v = .error (.fault .exhausted) ↔ stack.displays v = false := by
  refine ⟨fun h => ?_, shown_of_not_displays⟩
  cases hdisplays : stack.displays v with
  | true => cases (shown_of_displays hdisplays).symm.trans h
  | false => rfl

end HostStack

end Lisplet
