import Lisplet.Proofs.Form.Progress
import Lisplet.Proofs.Value.Normal

/-!
# Reading what values are spelled with

The lexemes of a plain value bring the value back when they are fed in order, wherever they stand
inside a list, as long as the lists in the value fit below the nesting limit there.
-/

namespace Lisplet.Form.Progress

open Value

/-- A lexeme other than a parenthesis is put aside as its value. -/
theorem feed_leaf {limit : Int} {t : Token} {finished waiting : List (List Value)}
    {items : List Value} (hopen : t.lexeme ≠ .openParen) (hclose : t.lexeme ≠ .closeParen) :
    feed limit ⟨finished, items :: waiting⟩ t =
      .ok ⟨finished, (t.lexeme.value :: items) :: waiting⟩ := by
  simp only [feed]

/-- Feeding the lexemes of values one after the other puts the values aside if feeding those of
each does. -/
theorem foldlM_feed_flatMap {limit : Int} {finished waiting : List (List Value)}
    {values : List Value}
    (hvalues : ∀ v ∈ values, ∀ (tokens : List Token) (items : List Value),
      tokens.map Token.lexeme = v.lexemes →
      tokens.foldlM (feed limit) ⟨finished, items :: waiting⟩ =
        .ok ⟨finished, (v :: items) :: waiting⟩)
    {tokens : List Token} (htokens : tokens.map Token.lexeme = values.flatMap lexemes)
    (items : List Value) :
    tokens.foldlM (feed limit) ⟨finished, items :: waiting⟩ =
      .ok ⟨finished, (values.reverse ++ items) :: waiting⟩ := by
  induction values generalizing tokens items with
  | nil =>
    rw [List.flatMap_nil, List.map_eq_nil_iff] at htokens
    subst htokens
    rfl
  | cons v rest ih =>
    rw [List.flatMap_cons, List.map_eq_append_iff] at htokens
    obtain ⟨first, more, rfl, hfirst, hmore⟩ := htokens
    rw [List.forall_mem_cons] at hvalues
    rw [List.foldlM_append, hvalues.1 first items hfirst, List.reverse_cons, List.append_assoc]
    exact ih hvalues.2 hmore (v :: items)

/-- Feeding the lexemes of values and then a closing parenthesis closes the list of them. -/
theorem foldlM_feed_items {limit : Int} {finished waiting : List (List Value)}
    {values : List Value}
    (hvalues : ∀ v ∈ values, ∀ (tokens : List Token) (items : List Value),
      tokens.map Token.lexeme = v.lexemes →
      tokens.foldlM (feed limit) ⟨finished, items :: waiting⟩ =
        .ok ⟨finished, (v :: items) :: waiting⟩)
    {tokens : List Token}
    (htokens : tokens.map Token.lexeme = values.flatMap lexemes ++ [.closeParen]) :
    tokens.foldlM (feed limit) ⟨finished, [] :: waiting⟩ =
      .ok (Progress.close ⟨finished, []⟩ values.reverse waiting) := by
  rw [List.map_eq_append_iff] at htokens
  obtain ⟨inner, closing, rfl, hinner, hclosing⟩ := htokens
  obtain ⟨close, rfl, hclose⟩ := List.map_eq_singleton_iff.mp hclosing
  have hlast : feed limit ⟨finished, values.reverse :: waiting⟩ close =
      .ok (Progress.close ⟨finished, []⟩ values.reverse waiting) := by
    cases waiting <;> simp [feed, hclose, Progress.close]
  have hfed := foldlM_feed_flatMap hvalues hinner []
  rw [List.append_nil] at hfed
  rw [List.foldlM_append, hfed]
  change [close].foldlM (feed limit) ⟨finished, values.reverse :: waiting⟩ = _
  rw [List.foldlM_cons, hlast]
  rfl

/-- Feeding the lexemes of a plain value inside a list puts the value aside. -/
theorem foldlM_feed_lexemes {limit : Int} {v : Value} (hplain : v.IsPlain)
    (finished waiting : List (List Value))
    (hdepth : (waiting.length : Int) + 1 + v.nesting ≤ max 1 limit) (tokens : List Token)
    (items : List Value) (htokens : tokens.map Token.lexeme = v.lexemes) :
    tokens.foldlM (feed limit) ⟨finished, items :: waiting⟩ =
      .ok ⟨finished, (v :: items) :: waiting⟩ := by
  induction v using of_items generalizing waiting tokens items with
  | list values ih =>
    rw [isPlain_list] at hplain
    rw [nesting_list] at hdepth
    rw [lexemes_list, List.map_eq_cons_iff] at htokens
    obtain ⟨opening, others, rfl, hopening, hothers⟩ := htokens
    have hbelow : ¬ limit ≤ (waiting.length : Int) + 1 := by omega
    have hopen : feed limit ⟨finished, items :: waiting⟩ opening =
        .ok ⟨finished, [] :: items :: waiting⟩ := by
      simp [feed, hopening, hbelow]
    have hvalues : ∀ v ∈ values, ∀ (tokens : List Token) (inside : List Value),
        tokens.map Token.lexeme = v.lexemes →
        tokens.foldlM (feed limit) ⟨finished, inside :: items :: waiting⟩ =
          .ok ⟨finished, (v :: inside) :: items :: waiting⟩ := by
      intro v hv tokens inside htokens
      have hnesting := nesting_le_of_mem hv
      refine ih v hv (hplain v hv) (items :: waiting) ?_ tokens inside htokens
      rw [List.length_cons]
      omega
    have hfed := foldlM_feed_items hvalues hothers
    rw [Progress.close, inOrder, List.reverse_reverse] at hfed
    rw [List.foldlM_cons, hopen]
    exact hfed
  | leaf v hleaf =>
    obtain ⟨lexeme, hvalue, hlexemes, hopen, hclose⟩ : ∃ lexeme : Lexeme, lexeme.value = v ∧
        v.lexemes = [lexeme] ∧ lexeme ≠ .openParen ∧ lexeme ≠ .closeParen := by
      obtain ⟨s, rfl⟩ | ⟨name, rfl⟩ | ⟨x, rfl⟩ := (leaves_leaf hleaf).mp hplain
      · exact ⟨.text s, rfl, rfl, by simp, by simp⟩
      · exact ⟨.symbol name, rfl, rfl, by simp, by simp⟩
      · exact ⟨.number x, rfl, rfl, by simp, by simp⟩
    rw [hlexemes] at htokens
    obtain ⟨t, rfl, rfl⟩ := List.map_eq_singleton_iff.mp htokens
    rw [List.foldlM_cons, feed_leaf hopen hclose, hvalue]
    rfl

/-- Feeding the lexemes of a plain list outside all lists finishes a form. -/
theorem foldlM_feed_form {limit : Int} {form : List Value} (hplain : (Value.list form).IsPlain)
    (hnesting : ((Value.list form).nesting : Int) ≤ max 1 limit) {tokens : List Token}
    (htokens : tokens.map Token.lexeme = (Value.list form).lexemes)
    (finished : List (List Value)) :
    tokens.foldlM (feed limit) ⟨finished, []⟩ = .ok ⟨form :: finished, []⟩ := by
  rw [isPlain_list] at hplain
  rw [nesting_list] at hnesting
  rw [lexemes_list, List.map_eq_cons_iff] at htokens
  obtain ⟨opening, others, rfl, hopening, hothers⟩ := htokens
  have hopen : feed limit ⟨finished, []⟩ opening = .ok ⟨finished, [[]]⟩ := by
    simp [feed, Token.kind, hopening, Lexeme.kind]
  have hvalues : ∀ v ∈ form, ∀ (tokens : List Token) (inside : List Value),
      tokens.map Token.lexeme = v.lexemes →
      tokens.foldlM (feed limit) ⟨finished, [inside]⟩ = .ok ⟨finished, [v :: inside]⟩ := by
    intro v hv tokens inside htokens
    have hbelow := nesting_le_of_mem hv
    refine foldlM_feed_lexemes (hplain v hv) finished [] ?_ tokens inside htokens
    rw [List.length_nil]
    omega
  have hfed := foldlM_feed_items hvalues hothers
  rw [Progress.close, inOrder, List.reverse_reverse] at hfed
  rw [List.foldlM_cons, hopen]
  exact hfed

end Lisplet.Form.Progress
