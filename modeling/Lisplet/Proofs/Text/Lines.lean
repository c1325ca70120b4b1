import Lisplet.Text.Blank
import Lisplet.Text.Lines
import Mathlib.Data.List.TakeWhile

/-!
# Texts by lines

A text is a line alone, or a line and a line feed before another text. What is proved along this
division holds of every text. Taking the blanks off a line leaves nothing when there is nothing else
in the line.
-/

namespace Lisplet.Text

/-- A text without a line feed is one line. -/
theorem lines_of_not_mem {line : List Char} (h : '\n' ∉ line) : lines line = [line] := by
  induction line with
  | nil => rfl
  | cons c rest ih =>
    rw [List.mem_cons, not_or] at h
    rw [lines, if_neg (Ne.symm h.1), ih h.2]

/-- A line feed ends a line. -/
theorem lines_append {line : List Char} (h : '\n' ∉ line) (rest : List Char) :
    lines (line ++ '\n' :: rest) = line :: lines rest := by
  induction line with
  | nil => simp [lines]
  | cons c more ih =>
    rw [List.mem_cons, not_or] at h
    rw [List.cons_append, lines, if_neg (Ne.symm h.1), ih h.2]

/-- Every text is made of lines: what holds of a line alone, and of a line before a text of which
it holds, holds of it. -/
theorem induction_lines {P : List Char → Prop} (line : ∀ line, '\n' ∉ line → P line)
    (more : ∀ line rest, '\n' ∉ line → P rest → P (line ++ '\n' :: rest)) (text : List Char) :
    P text := by
  induction hlength : text.length using Nat.strongRecOn generalizing text with
  | ind n ih =>
    by_cases hmem : '\n' ∈ text
    · obtain ⟨first, rest, rfl, hfirst⟩ := List.eq_append_cons_of_mem hmem
      exact more first rest hfirst (ih rest.length (by simp [← hlength]; omega) rest rfl)
    · exact line text hmem

/-- A text is what taking characters off its ends leaves, with those characters around it. -/
theorem exists_around_trimWhere (test : Char → Bool) (text : List Char) :
    ∃ before after, text = before ++ (trimWhere test text ++ after) ∧
      (∀ c ∈ before, test c = true) ∧ ∀ c ∈ after, test c = true := by
  have hafter := List.takeWhile_append_dropWhile (p := test) (l := (text.dropWhile test).reverse)
  refine ⟨text.takeWhile test, ((text.dropWhile test).reverse.takeWhile test).reverse, ?_,
    fun c hc => List.mem_takeWhile_imp hc,
    fun c hc => List.mem_takeWhile_imp (List.mem_reverse.mp hc)⟩
  rw [trimWhere, ← List.reverse_append, hafter, List.reverse_reverse,
    List.takeWhile_append_dropWhile]

/-- A text between two characters that are not taken off stays as it is. -/
theorem trimWhere_between {test : Char → Bool} {first last : Char} (text : List Char)
    (hfirst : test first = false) (hlast : test last = false) :
    trimWhere test (first :: (text ++ [last])) = first :: (text ++ [last]) := by
  simp [trimWhere, hfirst, hlast]

/-- Nothing is left of a text when all of it is taken off. -/
theorem trimWhere_eq_nil_iff {test : Char → Bool} {text : List Char} :
    trimWhere test text = [] ↔ ∀ c ∈ text, test c = true := by
  constructor
  · intro h
    obtain ⟨before, after, htext, hbefore, hafter⟩ := exists_around_trimWhere test text
    rw [h, List.nil_append] at htext
    rw [htext]
    exact List.forall_mem_append.mpr ⟨hbefore, hafter⟩
  · intro h
    rw [trimWhere, List.dropWhile_eq_nil_iff.mpr h]
    rfl

end Lisplet.Text
