import Lisplet.Proofs.Form.Single
import Lisplet.Proofs.Form.Spelled
import Lisplet.Proofs.Scanning.Spelled

/-!
# Printed lists read back

The program text of a list reads back to the list, with the empty values in it as empty lists and
the whole numbers as doubles, if its symbols are names that scan as one symbol and its lists fit
below the nesting limit. Nothing is asked of the texts in it, and nothing of the numbers but that
they have program text.
-/

namespace Lisplet

/-- Whether all the symbols in a value are names that scan as one symbol. -/
def Value.HasNames (v : Value) : Prop :=
  v.Leaves fun leaf => ∀ name, leaf = .symbol name → Cursor.IsName name.toList

/-- The symbols in a list are those in its items. -/
theorem Value.hasNames_list {items : List Value} :
    (Value.list items).HasNames ↔ ∀ v ∈ items, v.HasNames := leaves_list

namespace Form

/-- A double that has program text is finite and has its own text. -/
theorem isFinite_of_toSource {x : Binary64} {source : String} (h : x.toSource = .ok source) :
    x.isFinite = true ∧ source = x.toText := by
  unfold Binary64.toSource at h
  split at h
  · next hfinite =>
    cases h
    exact ⟨hfinite, rfl⟩
  · cases h

/-- The text of a list is the texts of its items with single blanks between them, in
parentheses. -/
theorem toList_intercalate_parts (parts : List String) :
    ("(" ++ String.intercalate " " parts ++ ")").toList =
      '(' :: ([' '].intercalate (parts.map String.toList) ++ [')']) := by
  simp [String.toList_intercalate]

/-- Texts that spell values make a text that spells the list of these. -/
theorem spells_list {parts : List String} {items : List Value}
    (h : List.Forall₂ (fun part v => Cursor.Spells part.toList v.lexemes) parts items) :
    Cursor.Spells ("(" ++ String.intercalate " " parts ++ ")").toList
      (Value.list items).lexemes := by
  have hspells : List.Forall₂ Cursor.Spells (parts.map String.toList)
      (items.map Value.lexemes) := by
    rwa [List.forall₂_map_left_iff, List.forall₂_map_right_iff]
  rw [toList_intercalate_parts, Value.lexemes_list, List.flatMap_def]
  exact (Cursor.spells_intercalate hspells).parenthesized

/-- The program text of a value spells the lexemes of what it reads back to. -/
theorem spells_toSource {v : Value} {source : String} (hsource : v.toSource = .ok source)
    (hnames : v.HasNames) : Cursor.Spells source.toList v.normal.lexemes := by
  induction v using Value.of_items generalizing source with
  | list items ih =>
    obtain ⟨parts, hparts, rfl⟩ := Value.toSource_list.mp hsource
    rw [Value.hasNames_list] at hnames
    rw [Value.normal_list]
    apply spells_list
    clear hsource
    induction items generalizing parts with
    | nil =>
      cases hparts
      exact .nil
    | cons item rest ihrest =>
      rw [List.forall_mem_cons] at ih hnames
      obtain ⟨part, others, hpart, hothers, rfl⟩ := Value.toSourceAll_cons.mp hparts
      exact .cons (ih.1 hpart hnames.1) (ihrest ih.2 hnames.2 others hothers)
  | leaf v hleaf =>
    cases v with
    | list items => exact absurd rfl (hleaf items)
    | number n =>
      obtain ⟨x, hnormal, hx⟩ := Value.exists_real_of_toSource hsource
      obtain ⟨hfinite, rfl⟩ := isFinite_of_toSource hx
      rw [hnormal]
      exact Cursor.spells_double hfinite
    | text s =>
      cases hsource
      exact Cursor.spells_literal s
    | symbol name =>
      cases hsource
      exact Cursor.spells_name ((Value.leaves_leaf hleaf).mp hnames _ rfl)
    | nil =>
      cases hsource
      exact Cursor.spells_nil.parenthesized
    | unbound => cases hsource
    | absent => cases hsource
    | truth b => cases hsource
    | native f => cases hsource

/-- A text that spells a plain list within the nesting limit reads as that list alone. -/
theorem parse_of_spells {limit : Int} {form : List Value} {source : String}
    (hspells : Cursor.Spells source.toList (Value.list form).lexemes)
    (hplain : (Value.list form).IsPlain)
    (hnesting : ((Value.list form).nesting : Int) ≤ max 1 limit) :
    parse limit source = .ok form := by
  obtain ⟨tokens, htokens, here, hyields⟩ := hspells.exists_yields
  have hfed := Progress.foldlM_feed_form hplain hnesting htokens []
  rw [parse_eq_ok_iff, parseAll_eq_ok_iff, drain_eq_run hyields, Progress.run_of_ok hfed]
  rfl

/-- Printing a list and reading the text gives the list back, with the empty values as empty lists
and the whole numbers as doubles: a list that is printed again as the same text, and the very list
that was printed if it is made of lists, texts, symbols and doubles. -/
theorem parse_toSource {limit : Int} {items : List Value} {source : String}
    (hsource : (Value.list items).toSource = .ok source) (hnames : (Value.list items).HasNames)
    (hnesting : ((Value.list items).nesting : Int) ≤ max 1 limit) :
    parse limit source = .ok (items.map Value.normal) ∧
      (Value.list (items.map Value.normal)).toSource = .ok source ∧
      ((Value.list items).IsPlain → items.map Value.normal = items) := by
  have hspells := spells_toSource hsource hnames
  obtain ⟨hplain, hagain⟩ := Value.isPlain_normal hsource
  rw [← Value.nesting_normal] at hnesting
  rw [Value.normal_list] at hspells hplain hagain hnesting
  refine ⟨parse_of_spells hspells hplain hnesting, hagain, fun h => ?_⟩
  have hsame := Value.normal_of_isPlain h
  rw [Value.normal_list] at hsame
  exact Value.list.inj hsame

/-- A list with a lone minus sign, a text that holds a quote and a parenthesis, an empty value and a
negative zero reads back from its text, right at the nesting limit. -/
theorem parse_toSource_at_limit :
    parse 2 "(- \"a\\\"(\" () -0.0)" =
      .ok [.symbol "-", .text "a\"(", .list [], .real (.zero true)] := by
  have hsource : (Value.list [.symbol "-", .text "a\"(", .nil, .real (.zero true)]).toSource =
      .ok "(- \"a\\\"(\" () -0.0)" := rfl
  have hnames : (Value.list [.symbol "-", .text "a\"(", .nil, .real (.zero true)]).HasNames := by
    have hminus : Cursor.IsName ['-'] :=
      ⟨by simp, List.forall_mem_singleton.mpr ⟨rfl, by decide⟩, by simp, by simp⟩
    rw [Value.hasNames_list]
    simpa [Value.HasNames, Value.Leaves, Value.real] using hminus
  exact (parse_toSource hsource hnames (by decide)).1

end Form

end Lisplet
