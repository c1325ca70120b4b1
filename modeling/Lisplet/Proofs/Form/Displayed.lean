import Lisplet.Proofs.Form.RoundTrip
import Lisplet.Proofs.Numeral.Displayed
import Lisplet.Value.Equality

/-!
# Displayed lists read back

What the console shows of a list without texts is program text: whole doubles are shown as other
numerals than in a printed list, yet these are numerals too, and names and lists are shown as they
are printed. So the list reads back, but for the signs of the zeros in it.
-/

namespace Lisplet

namespace Value

/-- Whether a value is made of lists, finite doubles and names that scan as one symbol. -/
def IsTextless (v : Value) : Prop :=
  v.Leaves fun leaf =>
    (∃ name : String, leaf = .symbol name ∧ Cursor.IsName name.toList) ∨
      ∃ x : Binary64, leaf = .real x ∧ x.isFinite = true

/-- A list is made of such things when its items are. -/
theorem isTextless_list {items : List Value} :
    (Value.list items).IsTextless ↔ ∀ v ∈ items, v.IsTextless := leaves_list

mutual

/-- A value with the signs of the zeros in it lost. -/
def unsigned : Value → Value
  | .list items => .list (unsignedAll items)
  | .number (.real x) => .real x.unsignedZero
  | leaf => leaf

/-- Some values with the signs of the zeros in them lost. -/
def unsignedAll : List Value → List Value
  | [] => []
  | item :: rest => unsigned item :: unsignedAll rest

end

/-- The items of a list lose the signs one by one. -/
@[simp] theorem unsigned_list (items : List Value) :
    (Value.list items).unsigned = .list (items.map unsigned) := by
  have hall : ∀ items, unsignedAll items = items.map unsigned := by
    intro items
    induction items with
    | nil => rw [unsignedAll, List.map_nil]
    | cons item rest ih => rw [unsignedAll, ih, List.map_cons]
  rw [unsigned, hall]

/-- The items of a list are shown one by one. -/
theorem displayAll_eq (items : List Value) : displayAll items = items.map display := by
  induction items with
  | nil => rw [displayAll, List.map_nil]
  | cons item rest ih => rw [displayAll, ih, List.map_cons]

variable {v : Value}

/-- Losing signs does not change the nesting. -/
theorem nesting_unsigned (v : Value) : v.unsigned.nesting = v.nesting := by
  induction v using of_items with
  | list items ih => rw [unsigned_list, nesting_list, nesting_list, nestingAll_map ih]
  | leaf v hleaf =>
    cases v with
    | list items => exact absurd rfl (hleaf items)
    | number n => cases n <;> rfl
    | _ => rfl

/-- A value without texts is plain, also when the signs of its zeros are lost. -/
theorem IsTextless.isPlain_unsigned (h : v.IsTextless) : v.unsigned.IsPlain := by
  induction v using of_items with
  | list items ih =>
    rw [isTextless_list] at h
    rw [unsigned_list, isPlain_list, List.forall_mem_map]
    exact fun v hv => ih v hv (h v hv)
  | leaf v hleaf =>
    obtain ⟨name, rfl, -⟩ | ⟨x, rfl, -⟩ := (leaves_leaf hleaf).mp h
    · simp [unsigned, IsPlain, Leaves]
    · simp [unsigned, real, IsPlain, Leaves]

/-- A value without texts equals itself with the signs of its zeros lost. -/
theorem IsTextless.equal_unsigned (h : v.IsTextless) : v.unsigned.equal v = true := by
  induction v using of_items with
  | list items ih =>
    rw [isTextless_list] at h
    rw [unsigned_list, equal]
    induction items with
    | nil => rfl
    | cons item rest ihrest =>
      rw [List.forall_mem_cons] at ih h
      rw [List.map_cons, equalAll, ih.1 h.1, ihrest ih.2 h.2]
      rfl
  | leaf v hleaf =>
    obtain ⟨name, rfl, -⟩ | ⟨x, rfl, hfinite⟩ := (leaves_leaf hleaf).mp h
    · simp [unsigned, equal, equalAtoms]
    · exact Binary64.equal_unsignedZero hfinite

end Value

namespace Form

/-- What the console shows of a value without texts spells the lexemes of the value with the signs
of its zeros lost. -/
theorem spells_display {v : Value} (h : v.IsTextless) :
    Cursor.Spells v.display.toList v.unsigned.lexemes := by
  induction v using Value.of_items with
  | list items ih =>
    rw [Value.isTextless_list] at h
    rw [Value.display, Value.displayAll_eq, Value.unsigned_list]
    apply spells_list
    rw [List.forall₂_map_left_iff, List.forall₂_map_right_iff, List.forall₂_same]
    exact fun v hv => ih v hv (h v hv)
  | leaf v hleaf =>
    obtain ⟨name, rfl, hname⟩ | ⟨x, rfl, hfinite⟩ := (Value.leaves_leaf hleaf).mp h
    · exact Cursor.spells_name hname
    · obtain ⟨p, htext, hvalue⟩ := Numeral.exists_spelling_display hfinite
      have hspells := Cursor.spells_numeral p
      rw [htext, hvalue] at hspells
      exact hspells

/-- What the console shows of a list without texts reads back as the list with the signs of its
zeros lost, which equals it, as long as its lists fit below the nesting limit. -/
theorem parse_display (limit : Int) {items : List Value} (h : (Value.list items).IsTextless)
    (hnesting : ((Value.list items).nesting : Int) ≤ max 1 limit) :
    parse limit (Value.list items).display = .ok (items.map Value.unsigned) ∧
      (Value.list (items.map Value.unsigned)).equal (.list items) = true := by
  have hspells := spells_display h
  have hplain := h.isPlain_unsigned
  have hequal := h.equal_unsigned
  rw [← Value.nesting_unsigned] at hnesting
  rw [Value.unsigned_list] at hspells hplain hequal hnesting
  exact ⟨parse_of_spells hspells hplain hnesting, hequal⟩

/-- A negative zero is shown without its sign, a large double by all its digits and a small one with
an exponent, behind a name that holds a parenthesis: these read back right at the nesting limit. -/
theorem parse_display_at_limit :
    parse 2 "(0 - (a( 99999999999999991611392 1e-07))" =
      .ok [.real (.zero false), .symbol "-", .list [.symbol "a(",
        .real (.ofDecimal false 1 23), .real (.ofDecimal false 1 (-7))]] := by
  have hdisplay : (Value.list [.real (.zero true), .symbol "-", .list [.symbol "a(",
      .real (.ofDecimal false 1 23), .real (.ofDecimal false 1 (-7))]]).display =
      "(0 - (a( 99999999999999991611392 1e-07))" := by
    decide +kernel
  have htextless : (Value.list [.real (.zero true), .symbol "-", .list [.symbol "a(",
      .real (.ofDecimal false 1 23), .real (.ofDecimal false 1 (-7))]]).IsTextless := by
    have hminus : Cursor.IsName ['-'] :=
      ⟨by simp, List.forall_mem_singleton.mpr ⟨rfl, by decide⟩, by simp, by simp⟩
    have hunbroken : ∀ c ∈ ['a', '('], Text.isBlank c = false ∧ c ≠ ')' :=
      List.forall_mem_cons.mpr ⟨⟨rfl, by decide⟩, List.forall_mem_singleton.mpr ⟨rfl, by decide⟩⟩
    have hopen : Cursor.IsName ['a', '('] := ⟨by simp, hunbroken, by simp, by simp⟩
    have hlarge : (Binary64.ofDecimal false 1 23).isFinite = true := by decide +kernel
    have hsmall : (Binary64.ofDecimal false 1 (-7)).isFinite = true := by decide +kernel
    have hzero : (Binary64.zero true).isFinite = true := rfl
    simp [Value.IsTextless, Value.Leaves, Value.AllLeaves, Value.real, hminus, hopen, hlarge,
      hsmall, hzero]
  have hlarge : (Binary64.ofDecimal false 1 23).unsignedZero = .ofDecimal false 1 23 := by
    decide +kernel
  have hsmall : (Binary64.ofDecimal false 1 (-7)).unsignedZero = .ofDecimal false 1 (-7) := by
    decide +kernel
  have hzero : (Binary64.zero true).unsignedZero = .zero false := by decide +kernel
  have hread := (parse_display 2 htextless (by decide)).1
  rw [hdisplay] at hread
  rw [hread]
  simp [Value.real, Value.unsigned, Value.unsignedAll, hlarge, hsmall, hzero]

end Form

end Lisplet
