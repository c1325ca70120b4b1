import Lisplet.Proofs.Form.Counting
import Lisplet.Proofs.Form.RoundTrip
import Lisplet.Proofs.Scanning.Readable

/-!
# What can be read

The lists that reading comes to are exactly those that are made of lists, texts, names and doubles
that are numbers and that fit below the nesting limit. Infinities are among the doubles, since a
numeral can be too large, and they are all that keeps a list that has been read from having program
text of its own.
-/

namespace Lisplet

namespace Value

variable {P : Value → Prop}

/-- Whether a value is made of lists, texts, names and doubles that are numbers. -/
def IsReadable (v : Value) : Prop :=
  v.Leaves fun leaf => (∃ s, leaf = .text s) ∨
    (∃ name, leaf = .symbol name ∧ Cursor.IsName name.toList) ∨ ∃ x, leaf = .real x ∧ x ≠ .nan

/-- Whether the doubles in a value are all finite. -/
def IsFinite (v : Value) : Prop := v.Leaves fun leaf => ∀ x, leaf = .real x → x.isFinite = true

/-- The leaves of a plain value are the values of its lexemes, the parentheses apart. -/
theorem leaves_iff_lexemes {v : Value} (h : v.IsPlain) :
    v.Leaves P ↔
      ∀ lexeme ∈ v.lexemes, lexeme ≠ .openParen → lexeme ≠ .closeParen → P lexeme.value := by
  induction v using of_items with
  | list items ih =>
    rw [isPlain_list] at h
    have hitems : (∀ v ∈ items, v.Leaves P) ↔ ∀ lexeme ∈ items.flatMap lexemes,
        lexeme ≠ .openParen → lexeme ≠ .closeParen → P lexeme.value := by
      simp only [List.mem_flatMap]
      constructor
      · rintro hleaves lexeme ⟨v, hv, hlexeme⟩
        exact (ih v hv (h v hv)).mp (hleaves v hv) lexeme hlexeme
      · intro hlexemes v hv
        exact (ih v hv (h v hv)).mpr fun lexeme hlexeme => hlexemes lexeme ⟨v, hv, hlexeme⟩
    rw [leaves_list, hitems, lexemes_list, List.forall_mem_cons, List.forall_mem_append,
      List.forall_mem_singleton]
    simp
  | leaf v hleaf =>
    rw [leaves_leaf hleaf]
    obtain ⟨s, rfl⟩ | ⟨name, rfl⟩ | ⟨x, rfl⟩ := (leaves_leaf hleaf).mp h <;>
      simp [lexemes, Lexeme.value, real]

/-- A readable value is plain. -/
theorem IsReadable.isPlain {v : Value} (h : v.IsReadable) : v.IsPlain := by
  refine h.mono fun leaf hleaf => ?_
  obtain hs | ⟨name, hname, -⟩ | ⟨x, hx, -⟩ := hleaf
  · exact Or.inl hs
  · exact Or.inr (Or.inl ⟨name, hname⟩)
  · exact Or.inr (Or.inr ⟨x, hx⟩)

/-- The symbols in a readable value are names. -/
theorem IsReadable.hasNames {v : Value} (h : v.IsReadable) : v.HasNames := by
  refine h.mono fun leaf hleaf name hname => ?_
  subst hname
  obtain ⟨s, hs⟩ | ⟨other, hother, hisname⟩ | ⟨x, hx, -⟩ := hleaf
  · cases hs
  · cases hother
    exact hisname
  · cases hx

/-- A plain value is readable when a text can be scanned as each of its lexemes. -/
theorem isReadable_iff_canScan {v : Value} (h : v.IsPlain) :
    v.IsReadable ↔ ∀ lexeme ∈ v.lexemes, Cursor.CanScan lexeme := by
  rw [IsReadable, leaves_iff_lexemes h]
  refine forall₂_congr fun lexeme _ => ?_
  cases lexeme <;> simp [Lexeme.value, real, Cursor.CanScan]

/-- Some text spells each readable value. -/
theorem IsReadable.exists_spells {v : Value} (h : v.IsReadable) :
    ∃ part, Cursor.Spells part v.lexemes := by
  induction v using of_items with
  | list items ih =>
    have hparts : ∃ parts, List.Forall₂ Cursor.Spells parts (items.map lexemes) := by
      rw [IsReadable, leaves_list] at h
      induction items with
      | nil => exact ⟨[], .nil⟩
      | cons item rest ihrest =>
        rw [List.forall_mem_cons] at ih h
        obtain ⟨part, hpart⟩ := ih.1 h.1
        obtain ⟨parts, hparts⟩ := ihrest ih.2 h.2
        exact ⟨part :: parts, .cons hpart hparts⟩
    obtain ⟨parts, hparts⟩ := hparts
    rw [lexemes_list, List.flatMap_def]
    exact ⟨_, (Cursor.spells_intercalate hparts).parenthesized⟩
  | leaf v hleaf =>
    obtain ⟨s, rfl⟩ | ⟨name, rfl, hname⟩ | ⟨x, rfl, hx⟩ := (leaves_leaf hleaf).mp h
    · exact Cursor.exists_spells (.text s) trivial (by simp) (by simp)
    · exact Cursor.exists_spells (.symbol name) hname (by simp) (by simp)
    · exact Cursor.exists_spells (.number x) hx (by simp) (by simp)

/-- Some values all have program text when each has. -/
theorem exists_toSourceAll_iff {items : List Value} :
    (∃ parts, toSourceAll items = .ok parts) ↔ ∀ v ∈ items, ∃ source, v.toSource = .ok source := by
  induction items with
  | nil => simp [toSourceAll]
  | cons item rest ih =>
    rw [List.forall_mem_cons, ← ih]
    constructor
    · rintro ⟨parts, h⟩
      obtain ⟨part, others, hpart, hothers, -⟩ := toSourceAll_cons.mp h
      exact ⟨⟨part, hpart⟩, others, hothers⟩
    · rintro ⟨⟨part, hpart⟩, others, hothers⟩
      exact ⟨_, toSourceAll_cons.mpr ⟨part, others, hpart, hothers, rfl⟩⟩

/-- A plain value has program text exactly when its doubles are all finite. -/
theorem exists_toSource_iff {v : Value} (h : v.IsPlain) :
    (∃ source, v.toSource = .ok source) ↔ v.IsFinite := by
  induction v using of_items with
  | list items ih =>
    rw [isPlain_list] at h
    have hitems : (∃ source, (Value.list items).toSource = .ok source) ↔
        ∃ parts, toSourceAll items = .ok parts := by
      simp only [toSource_list]
      exact ⟨fun ⟨_, parts, hparts, _⟩ => ⟨parts, hparts⟩,
        fun ⟨parts, hparts⟩ => ⟨_, parts, hparts, rfl⟩⟩
    rw [hitems, exists_toSourceAll_iff, IsFinite, leaves_list]
    exact forall₂_congr fun v hv => ih v hv (h v hv)
  | leaf v hleaf =>
    rw [IsFinite, leaves_leaf hleaf]
    obtain ⟨s, rfl⟩ | ⟨name, rfl⟩ | ⟨x, rfl⟩ := (leaves_leaf hleaf).mp h
    · simp [toSource, real]
    · simp [toSource, real]
    · by_cases hfinite : x.isFinite = true <;>
        simp [toSource, real, Number.toSource, Binary64.toSource, hfinite]

/-- The first of some values that has no program text is to blame. -/
theorem exists_of_toSourceAll_eq_error {items : List Value} {e : SourceFormError}
    (h : toSourceAll items = .error e) : ∃ v ∈ items, v.toSource = .error e := by
  induction items with
  | nil => cases h
  | cons item rest ih =>
    rw [toSourceAll] at h
    cases hitem : item.toSource with
    | error e' =>
      rw [hitem] at h
      cases h
      exact ⟨item, List.mem_cons_self, hitem⟩
    | ok part =>
      rw [hitem] at h
      cases hrest : toSourceAll rest with
      | error e' =>
        rw [hrest] at h
        cases h
        obtain ⟨v, hv, hsource⟩ := ih hrest
        exact ⟨v, List.mem_cons_of_mem item hv, hsource⟩
      | ok parts =>
        rw [hrest] at h
        cases h

/-- A plain value without program text has a part that has no source form. -/
theorem eq_noSourceForm_of_isPlain {v : Value} (h : v.IsPlain) {e : SourceFormError}
    (herror : v.toSource = .error e) : ∃ w, e = .noSourceForm w := by
  induction v using of_items with
  | list items ih =>
    rw [isPlain_list] at h
    rw [toSource] at herror
    cases hitems : toSourceAll items with
    | error e' =>
      rw [hitems] at herror
      cases herror
      obtain ⟨v, hv, hsource⟩ := exists_of_toSourceAll_eq_error hitems
      exact ih v hv (h v hv) hsource
    | ok parts =>
      rw [hitems] at herror
      cases herror
  | leaf v hleaf =>
    obtain ⟨s, rfl⟩ | ⟨name, rfl⟩ | ⟨x, rfl⟩ := (leaves_leaf hleaf).mp h
    · cases herror
    · cases herror
    · by_cases hfinite : x.isFinite = true
      · simp [toSource, real, Number.toSource, Binary64.toSource, hfinite] at herror
      · simp only [toSource, real, Number.toSource, Binary64.toSource, hfinite] at herror
        cases herror
        exact ⟨_, rfl⟩

end Value

namespace Form

open Cursor (yields_drain_ofText)
open Value

/-- Whether a text has a numeral that is too large for a double. -/
def HasOverflow (text : String) : Prop :=
  ∃ t ∈ (Scanner.ofText text).drain.1, ∃ negative, t.lexeme = .number (.infinite negative)

/-- A text that reads as one list has the list written out as its tokens. -/
theorem writtenAs_of_parse {limit : Int} {text : String} {items : List Value}
    (h : parse limit text = .ok items) :
    WrittenAs [items] ((Scanner.ofText text).drain.1.map Token.lexeme) ∧
      ((Value.list items).nesting : Int) ≤ max 1 limit := by
  rw [parse_eq_ok_iff, parseAll_eq_ok_iff, drain_eq_ok_iff (yields_drain_ofText text)] at h
  exact ⟨h.2.1, h.2.2 items List.mem_cons_self⟩

/-- The tokens of a text that reads as one list have the lexemes of the list. -/
theorem lexemes_of_parse {limit : Int} {text : String} {items : List Value}
    (h : parse limit text = .ok items) :
    (Value.list items).lexemes = (Scanner.ofText text).drain.1.map Token.lexeme := by
  simpa [flatten] using (writtenAs_of_parse h).1.flatten_eq

/-- A list that has been read is readable. -/
theorem isReadable_of_parse {limit : Int} {text : String} {items : List Value}
    (h : parse limit text = .ok items) : (Value.list items).IsReadable := by
  have hplain := (writtenAs_of_parse h).1.plain items List.mem_cons_self
  rw [isReadable_iff_canScan hplain, lexemes_of_parse h]
  intro lexeme hlexeme
  obtain ⟨t, ht, rfl⟩ := List.mem_map.mp hlexeme
  exact (yields_drain_ofText text).canScan t ht

/-- The doubles in a list that has been read are finite unless a numeral was too large. -/
theorem isFinite_iff_of_parse {limit : Int} {text : String} {items : List Value}
    (h : parse limit text = .ok items) : (Value.list items).IsFinite ↔ ¬ HasOverflow text := by
  have hplain := (writtenAs_of_parse h).1.plain items List.mem_cons_self
  have hcan := (yields_drain_ofText text).canScan
  rw [IsFinite, leaves_iff_lexemes hplain, lexemes_of_parse h, HasOverflow]
  simp only [List.mem_map, not_exists, not_and]
  constructor
  · intro hfinite t ht negative hlexeme
    have hleaf := hfinite t.lexeme ⟨t, ht, rfl⟩ (by simp [hlexeme]) (by simp [hlexeme])
      (.infinite negative) (by rw [hlexeme]; rfl)
    cases hleaf
  · rintro hnone lexeme ⟨t, ht, rfl⟩ - - x hx
    cases hlexeme : t.lexeme <;> rw [hlexeme] at hx <;> cases hx
    cases x with
    | nan =>
      have hnumber := hcan t ht
      rw [hlexeme] at hnumber
      exact absurd rfl hnumber
    | infinite negative => exact absurd hlexeme (hnone t ht negative)
    | finite negative units hunits => rfl

/-- A list is what some text reads as exactly when it is readable and fits below the nesting limit.
A list that has been read has no source form exactly when a numeral in the text was too large, and
otherwise its program text reads as the same list again. -/
theorem exists_parse_iff_isReadable :
    (∀ (limit : Int) (items : List Value), (∃ text, parse limit text = .ok items) ↔
      (Value.list items).IsReadable ∧ ((Value.list items).nesting : Int) ≤ max 1 limit) ∧
    ∀ (limit : Int) (text : String) (items : List Value), parse limit text = .ok items →
      ((∃ w, (Value.list items).toSource = .error (.noSourceForm w)) ↔ HasOverflow text) ∧
      (¬ HasOverflow text → ∃ source, (Value.list items).toSource = .ok source ∧
        parse limit source = .ok items) := by
  constructor
  · intro limit items
    constructor
    · rintro ⟨text, h⟩
      exact ⟨isReadable_of_parse h, (writtenAs_of_parse h).2⟩
    · rintro ⟨hreadable, hnesting⟩
      obtain ⟨part, hpart⟩ := hreadable.exists_spells
      refine ⟨String.ofList part, parse_of_spells ?_ hreadable.isPlain hnesting⟩
      rwa [String.toList_ofList]
  · intro limit text items h
    obtain ⟨hwritten, hnesting⟩ := writtenAs_of_parse h
    have hplain := hwritten.plain items List.mem_cons_self
    have hfinite := exists_toSource_iff hplain
    rw [isFinite_iff_of_parse h] at hfinite
    refine ⟨⟨?_, ?_⟩, ?_⟩
    · rintro ⟨w, hw⟩
      by_contra hnone
      obtain ⟨source, hsource⟩ := hfinite.mpr hnone
      rw [hw] at hsource
      cases hsource
    · intro hoverflow
      cases hsource : (Value.list items).toSource with
      | ok source => exact absurd hoverflow (hfinite.mp ⟨source, hsource⟩)
      | error e =>
        obtain ⟨w, rfl⟩ := eq_noSourceForm_of_isPlain hplain hsource
        exact ⟨w, rfl⟩
    · intro hnone
      obtain ⟨source, hsource⟩ := hfinite.mpr hnone
      have hspells := spells_toSource hsource (isReadable_of_parse h).hasNames
      rw [normal_of_isPlain hplain] at hspells
      exact ⟨source, hsource, parse_of_spells hspells hplain hnesting⟩

/-- A list with a symbol that holds a quote and with a numeral beyond every double is read, and what
has been read has no source form. -/
theorem exists_parse_iff_isReadable_overflowing :
    parse 1 "(a\"( -2e999)" = .ok [.symbol "a\"(", .real (.infinite true)] ∧
      ∃ w, (Value.list [.symbol "a\"(", .real (.infinite true)]).toSource =
        .error (.noSourceForm w) := by
  have hscans : (Scanner.ofText "(a\"( -2e999)").drain.2.1 = none := by decide +kernel
  have hwritten : WrittenAs [[.symbol "a\"(", .real (.infinite true)]]
      ((Scanner.ofText "(a\"( -2e999)").drain.1.map Token.lexeme) :=
    ⟨by simp [IsPlain, Leaves, AllLeaves, real], by decide +kernel⟩
  have hparse : parse 1 "(a\"( -2e999)" = .ok [.symbol "a\"(", .real (.infinite true)] :=
    parse_eq_ok_iff.mpr (parseAll_of_writtenAs hscans hwritten (by simp [nesting, real]))
  have hoverflow : HasOverflow "(a\"( -2e999)" := by
    have hmem : (⟨.number (.infinite true), ⟨5, 0, 5⟩, 6⟩ : Token) ∈
        (Scanner.ofText "(a\"( -2e999)").drain.1 := by decide +kernel
    exact ⟨_, hmem, true, rfl⟩
  exact ⟨hparse, (exists_parse_iff_isReadable.2 1 _ _ hparse).1.mpr hoverflow⟩

end Form

end Lisplet
