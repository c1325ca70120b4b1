import Lisplet.Proofs.Value.Leaves
import Lisplet.Proofs.Value.Nesting
import Lisplet.Value.Source

/-!
# Values as the reader makes them

Some values have program text without being what the reader makes of it: the empty value is written
as an empty list, and a whole number as the double it becomes. Putting the list and the double in
their place gives a plain value, one that is made of lists, texts, symbols and doubles, and it has
the same text.
-/

namespace Lisplet.Value

mutual

/-- A value with empty lists for the empty values in it and doubles for the whole numbers. -/
def normal : Value → Value
  | .list items => .list (normalAll items)
  | .nil => .list []
  | .number (.whole n) => .real (Binary64.ofInt n)
  | leaf => leaf

/-- Some values with empty lists for the empty values in them and doubles for the whole
numbers. -/
def normalAll : List Value → List Value
  | [] => []
  | item :: rest => normal item :: normalAll rest

end

mutual

/-- The lexemes that a plain value is spelled with. -/
def lexemes : Value → List Lexeme
  | .list items => .openParen :: (lexemesAll items ++ [.closeParen])
  | .text s => [.text s]
  | .symbol name => [.symbol name]
  | .number (.real x) => [.number x]
  | _ => []

/-- The lexemes that some plain values are spelled with, one value after the other. -/
def lexemesAll : List Value → List Lexeme
  | [] => []
  | item :: rest => lexemes item ++ lexemesAll rest

end

/-- Whether a value is made of lists, texts, symbols and doubles alone. -/
def IsPlain (v : Value) : Prop :=
  v.Leaves fun leaf =>
    (∃ s, leaf = .text s) ∨ (∃ name, leaf = .symbol name) ∨ ∃ x, leaf = .real x

/-- A list is plain when its items are. -/
theorem isPlain_list {items : List Value} :
    (Value.list items).IsPlain ↔ ∀ v ∈ items, v.IsPlain := leaves_list

/-- The items of a list are put in place one by one. -/
@[simp] theorem normal_list (items : List Value) :
    (Value.list items).normal = .list (items.map normal) := by
  have hall : ∀ items, normalAll items = items.map normal := by
    intro items
    induction items with
    | nil => rw [normalAll, List.map_nil]
    | cons item rest ih => rw [normalAll, ih, List.map_cons]
  rw [normal, hall]

/-- A list is spelled with its items in parentheses. -/
theorem lexemes_list (items : List Value) :
    (Value.list items).lexemes = .openParen :: (items.flatMap lexemes ++ [.closeParen]) := by
  have hall : ∀ items, lexemesAll items = items.flatMap lexemes := by
    intro items
    induction items with
    | nil => rw [lexemesAll, List.flatMap_nil]
    | cons item rest ih => rw [lexemesAll, ih, List.flatMap_cons]
  rw [lexemes, hall]

/-- There is nothing to put in place in a plain value. -/
theorem normal_of_isPlain {v : Value} (h : v.IsPlain) : v.normal = v := by
  induction v using of_items with
  | list items ih =>
    rw [isPlain_list] at h
    have hall : items.map normal = items.map id :=
      List.map_congr_left fun v hv => ih v hv (h v hv)
    rw [normal_list, hall, List.map_id]
  | leaf v hleaf =>
    obtain ⟨s, rfl⟩ | ⟨name, rfl⟩ | ⟨x, rfl⟩ := (leaves_leaf hleaf).mp h <;> rfl

/-- Putting lists and doubles in place does not change the nesting. -/
theorem nesting_normal (v : Value) : v.normal.nesting = v.nesting := by
  induction v using of_items with
  | list items ih => rw [normal_list, nesting_list, nesting_list, nestingAll_map ih]
  | leaf v hleaf =>
    cases v with
    | list items => exact absurd rfl (hleaf items)
    | nil => simp [normal, nesting]
    | number n => cases n <;> rfl
    | _ => rfl

/-- The texts of some values are found one by one. -/
theorem toSourceAll_cons {item : Value} {rest : List Value} {parts : List String} :
    toSourceAll (item :: rest) = .ok parts ↔
      ∃ part others, item.toSource = .ok part ∧ toSourceAll rest = .ok others ∧
        parts = part :: others := by
  rw [toSourceAll]
  cases item.toSource with
  | error e => simp [bind, Except.bind]
  | ok part =>
    cases toSourceAll rest with
    | error e => simp [bind, Except.bind]
    | ok others => simp [bind, Except.bind, pure, Except.pure, eq_comm]

/-- The text of a list holds the texts of its items. -/
theorem toSource_list {items : List Value} {source : String} :
    (Value.list items).toSource = .ok source ↔
      ∃ parts, toSourceAll items = .ok parts ∧
        source = "(" ++ String.intercalate " " parts ++ ")" := by
  rw [toSource]
  cases toSourceAll items with
  | error e => simp [bind, Except.bind]
  | ok parts => simp [bind, Except.bind, pure, Except.pure, eq_comm]

/-- A whole number that is not too large for a double becomes the double nearest to it. -/
theorem ofInt_of_ofInt?_eq_some {n : Int} {x : Binary64} (h : Binary64.ofInt? n = some x) :
    Binary64.ofInt n = x := by
  rw [Binary64.ofInt?] at h
  generalize Binary64.ofInt n = y at h ⊢
  cases y with
  | infinite negative => cases h
  | nan => exact Option.some.inj h
  | finite negative units hunits => exact Option.some.inj h

/-- A number that has program text becomes a double that has the same. -/
theorem exists_real_of_toSource {n : Number} {source : String} (h : n.toSource = .ok source) :
    ∃ x, (Value.number n).normal = .real x ∧ x.toSource = .ok source := by
  cases n with
  | real x => exact ⟨x, rfl, h⟩
  | whole n =>
    rw [Number.toSource] at h
    cases hx : Binary64.ofInt? n with
    | none =>
      rw [hx] at h
      cases h
    | some x =>
      rw [hx] at h
      exact ⟨x, by rw [normal, ofInt_of_ofInt?_eq_some hx], h⟩

/-- A value with program text is plain once lists and doubles are in place, and its text is the
same. -/
theorem isPlain_normal {v : Value} {source : String} (h : v.toSource = .ok source) :
    v.normal.IsPlain ∧ v.normal.toSource = .ok source := by
  induction v using of_items generalizing source with
  | list items ih =>
    obtain ⟨parts, hparts, rfl⟩ := toSource_list.mp h
    have hall : (∀ v ∈ items.map normal, v.IsPlain) ∧
        toSourceAll (items.map normal) = .ok parts := by
      clear h
      induction items generalizing parts with
      | nil => exact ⟨by simp, hparts⟩
      | cons item rest ihrest =>
        rw [List.forall_mem_cons] at ih
        obtain ⟨part, others, hpart, hothers, rfl⟩ := toSourceAll_cons.mp hparts
        obtain ⟨hplain, hsource⟩ := ih.1 hpart
        obtain ⟨hplains, hsources⟩ := ihrest ih.2 others hothers
        exact ⟨List.forall_mem_cons.mpr ⟨hplain, hplains⟩,
          toSourceAll_cons.mpr ⟨part, others, hsource, hsources, rfl⟩⟩
    rw [normal_list, isPlain_list, toSource_list]
    exact ⟨hall.1, parts, hall.2, rfl⟩
  | leaf v hleaf =>
    cases v with
    | list items => exact absurd rfl (hleaf items)
    | number n =>
      obtain ⟨x, hnormal, hsource⟩ := exists_real_of_toSource h
      rw [hnormal]
      exact ⟨by simp [IsPlain, Leaves, real], hsource⟩
    | text s => exact ⟨by simp [normal, IsPlain, Leaves], h⟩
    | symbol name => exact ⟨by simp [normal, IsPlain, Leaves], h⟩
    | nil =>
      cases h
      exact ⟨by simp [normal, isPlain_list], rfl⟩
    | unbound => cases h
    | absent => cases h
    | truth b => cases h
    | native f => cases h

end Lisplet.Value
