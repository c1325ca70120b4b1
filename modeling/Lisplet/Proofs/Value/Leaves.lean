import Lisplet.Token

/-!
# The leaves of a value

The leaves of a value are what is left when its lists are taken apart. Whatever is asked of a value
leaf by leaf is asked of a list by asking it of the items, and what follows for lists from their
items and for leaves by themselves follows for every value.
-/

namespace Lisplet.Value

/-- What holds of leaves, and of lists when it holds of their items, holds of every value. -/
theorem of_items {motive : Value → Prop}
    (list : ∀ items, (∀ v ∈ items, motive v) → motive (.list items))
    (leaf : ∀ v, (∀ items, v ≠ .list items) → motive v) (v : Value) : motive v := by
  match v with
  | .list items => exact list items fun v _ => of_items list leaf v
  | .number _ => exact leaf _ (by simp)
  | .text _ => exact leaf _ (by simp)
  | .symbol _ => exact leaf _ (by simp)
  | .nil => exact leaf _ (by simp)
  | .unbound => exact leaf _ (by simp)
  | .absent => exact leaf _ (by simp)
  | .truth _ => exact leaf _ (by simp)
  | .native _ => exact leaf _ (by simp)

variable {P : Value → Prop}

mutual

/-- Whether a property holds of every leaf of a value. -/
def Leaves (P : Value → Prop) : Value → Prop
  | .list items => AllLeaves P items
  | leaf => P leaf

/-- Whether a property holds of every leaf of some values. -/
def AllLeaves (P : Value → Prop) : List Value → Prop
  | [] => True
  | item :: rest => Leaves P item ∧ AllLeaves P rest

end

/-- The leaves of some values are those of each of them. -/
theorem allLeaves_iff {items : List Value} : AllLeaves P items ↔ ∀ v ∈ items, v.Leaves P := by
  induction items with
  | nil => simp [AllLeaves]
  | cons item rest ih => simp [AllLeaves, ih]

/-- The leaves of a list are those of its items. -/
@[simp] theorem leaves_list {items : List Value} :
    (Value.list items).Leaves P ↔ ∀ v ∈ items, v.Leaves P := by
  rw [Leaves, allLeaves_iff]

/-- A value that is no list is its own only leaf. -/
theorem leaves_leaf {v : Value} (h : ∀ items, v ≠ .list items) : v.Leaves P ↔ P v := by
  cases v <;> simp_all [Leaves]

/-- What holds of the leaves still does when it is weakened. -/
theorem Leaves.mono {Q : Value → Prop} (hweaker : ∀ leaf, P leaf → Q leaf) {v : Value}
    (h : v.Leaves P) : v.Leaves Q := by
  induction v using of_items with
  | list items ih =>
    rw [leaves_list] at h ⊢
    exact fun v hv => ih v hv (h v hv)
  | leaf v hleaf =>
    rw [leaves_leaf hleaf] at h ⊢
    exact hweaker v h

/-- Whether all the host functions in a value are among the allowed ones. -/
def UsesOnly (allowed : HostFunction → Prop) (v : Value) : Prop :=
  v.Leaves fun leaf => ∀ f, leaf = .native (.host f) → allowed f

variable {allowed : HostFunction → Prop}

/-- The host functions in a list are those in its items. -/
theorem usesOnly_list {items : List Value} :
    (Value.list items).UsesOnly allowed ↔ ∀ v ∈ items, v.UsesOnly allowed := leaves_list

/-- A host function is the only one in its value. -/
theorem usesOnly_host {f : HostFunction} :
    (Value.native (.host f)).UsesOnly allowed ↔ allowed f := by
  simp [UsesOnly, Leaves]

/-- There is no host function in an atom. -/
theorem usesOnly_lexeme (lexeme : Lexeme) : lexeme.value.UsesOnly allowed := by
  cases lexeme <;> simp [Lexeme.value, real, UsesOnly, Leaves]

end Lisplet.Value
