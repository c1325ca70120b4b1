import Lisplet.Value.Basic
import Mathlib.Data.Nat.Notation

/-!
# Nesting of values

How deep the lists of a value go into one another. The empty value counts as the empty list that
it is written as.
-/

namespace Lisplet.Value

mutual

/-- How deep the lists of a value are nested. -/
def nesting : Value → ℕ
  | .list items => nestingAll items + 1
  | .nil => 1
  | _ => 0

/-- How deep the lists of some values are nested at the most. -/
def nestingAll : List Value → ℕ
  | [] => 0
  | item :: rest => max (nesting item) (nestingAll rest)

end

/-- The items of a list are nested less deep than the list. -/
@[simp] theorem nesting_list (items : List Value) :
    (Value.list items).nesting = nestingAll items + 1 := by
  rw [nesting]

/-- No values are nested at all. -/
@[simp] theorem nestingAll_nil : nestingAll [] = 0 := by
  rw [nestingAll]

/-- The deepest of some values is the first or among the others. -/
@[simp] theorem nestingAll_cons (item : Value) (rest : List Value) :
    nestingAll (item :: rest) = max item.nesting (nestingAll rest) := by
  rw [nestingAll]

/-- No value is nested deeper than the deepest. -/
theorem nesting_le_of_mem {item : Value} {items : List Value} (h : item ∈ items) :
    item.nesting ≤ nestingAll items := by
  induction items with
  | nil => cases h
  | cons first rest ih =>
    rw [nestingAll_cons]
    obtain rfl | h := List.mem_cons.mp h
    · omega
    · have hrest := ih h
      omega

/-- Values that are nested as deep as those they are made from are so together. -/
theorem nestingAll_map {f : Value → Value} {items : List Value}
    (h : ∀ v ∈ items, (f v).nesting = v.nesting) :
    nestingAll (items.map f) = nestingAll items := by
  induction items with
  | nil => rfl
  | cons item rest ih =>
    rw [List.forall_mem_cons] at h
    rw [List.map_cons, nestingAll_cons, nestingAll_cons, h.1, ih h.2]

/-- Some values are nested as deep as the deepest of the first and of the others. -/
@[simp] theorem nestingAll_append (items others : List Value) :
    nestingAll (items ++ others) = max (nestingAll items) (nestingAll others) := by
  induction items with
  | nil => simp
  | cons item rest ih => simp [ih, Nat.max_assoc]

/-- The order of values does not matter to how deep they are nested. -/
@[simp] theorem nestingAll_reverse (items : List Value) :
    nestingAll items.reverse = nestingAll items := by
  induction items with
  | nil => simp
  | cons item rest ih => simp [ih, Nat.max_comm]

end Lisplet.Value
