import Lisplet.Position
import Lisplet.Proofs.Text.Lines
import Lisplet.Proofs.Text.Run
import Mathlib.Data.List.Induction

/-!
# Places in a text

The place behind a text is told by the number of its characters, the number of its line feeds and
the number of characters behind the last of these. Counting up character by character comes to the
same, and a place in one text is told by adding it to the place behind another when that other text
stands before the first.
-/

namespace Lisplet

namespace Text

/-- The offset of the last line of a text: right behind its last line feed, or zero if it has
none. -/
def lastLineStart (text : List Char) : ℕ :=
  text.length - (text.reverse.takeWhile (· != '\n')).length

/-- A line feed starts a line, and any other character goes on with one. -/
theorem lastLineStart_concat (text : List Char) (c : Char) :
    lastLineStart (text ++ [c]) = if c = '\n' then text.length + 1 else lastLineStart text := by
  by_cases h : c = '\n'
  · simp [lastLineStart, h]
  · simp [lastLineStart, h]

/-- The last line of a text starts within it. -/
theorem lastLineStart_le (text : List Char) : lastLineStart text ≤ text.length := Nat.sub_le _ _

/-- What stands before a line feed does not belong to the last line. -/
theorem lastLineStart_append (line rest : List Char) :
    lastLineStart (line ++ '\n' :: rest) = line.length + 1 + lastLineStart rest := by
  induction rest using List.reverseRecOn with
  | nil => rw [lastLineStart_concat, if_pos rfl]; rfl
  | append_singleton rest c ih =>
    have hsplit : line ++ '\n' :: (rest ++ [c]) = line ++ '\n' :: rest ++ [c] := by simp
    rw [hsplit, lastLineStart_concat, lastLineStart_concat, ih]
    split
    · rw [List.length_append, List.length_cons]
      omega
    · rfl

/-- The last line of a text holds no line feed. -/
theorem not_mem_drop_lastLineStart (text : List Char) :
    '\n' ∉ text.drop (lastLineStart text) := by
  induction text using List.reverseRecOn with
  | nil => simp
  | append_singleton text c ih =>
    rw [lastLineStart_concat]
    by_cases h : c = '\n'
    · simp [h]
    · rw [if_neg h, List.drop_append_of_le_length (lastLineStart_le text), List.mem_append, not_or]
      exact ⟨ih, by simpa using Ne.symm h⟩

/-- The last line of a text starts where the text does, or behind a line feed. -/
theorem take_lastLineStart (text : List Char) :
    text.take (lastLineStart text) = [] ∨
      (text.take (lastLineStart text)).getLast? = some '\n' := by
  induction text using List.reverseRecOn with
  | nil => exact Or.inl rfl
  | append_singleton text c ih =>
    rw [lastLineStart_concat]
    by_cases h : c = '\n'
    · rw [if_pos h, h, List.take_of_length_le (by simp)]
      simp
    · rwa [if_neg h, List.take_append_of_le_length (lastLineStart_le text)]

/-- The first line of a text goes up to its first line feed. -/
theorem head?_lines (text : List Char) :
    (lines text).head? = some (text.takeWhile (· != '\n')) := by
  induction text with
  | nil => rfl
  | cons c rest ih =>
    by_cases h : c = '\n'
    · simp [lines, h]
    · cases hlines : lines rest with
      | nil => exact absurd hlines (lines_ne_nil rest)
      | cons line more =>
        rw [hlines] at ih
        simp_all [lines]

/-- The line that a place is in, found by its number, is what stands around the place between the
line feeds next to it. -/
theorem lines_getElem?_count (before rest : List Char) :
    (lines (before ++ rest))[before.count '\n']? =
      some (before.drop (lastLineStart before) ++ rest.takeWhile (· != '\n')) := by
  induction before using induction_lines with
  | line line hline =>
    have hall : ∀ c ∈ line, (c != '\n') = true := fun c hc =>
      bne_iff_ne.mpr fun heq => hline (heq ▸ hc)
    have hstart : lastLineStart line = 0 := by
      have hlength : line.reverse.length = line.length := List.length_reverse
      rw [lastLineStart, List.takeWhile_eq_self_iff.mpr (by simpa using hall), hlength,
        Nat.sub_self]
    rw [List.count_eq_zero.mpr hline, hstart, List.drop_zero, ← List.head?_eq_getElem?, head?_lines,
      List.takeWhile_append_of_pos hall]
  | more line before hline ih =>
    have hdrop : (line ++ '\n' :: before).drop (line.length + 1 + lastLineStart before) =
        before.drop (lastLineStart before) := by
      rw [← List.drop_drop, ← List.drop_drop, List.drop_left]
      rfl
    rw [List.append_assoc, List.cons_append, lines_append hline, List.count_append,
      List.count_eq_zero.mpr hline, List.count_cons_self, Nat.zero_add, List.getElem?_cons_succ, ih,
      lastLineStart_append, hdrop]

/-- A line of a text at an offset: it holds no line feed, and it starts and ends where the text does
or next to a line feed. -/
structure IsLineAt (text : List Char) (start : ℕ) (line : List Char) : Prop where
  unbroken : '\n' ∉ line
  stands : line <+: text.drop start
  opened : text.take start = [] ∨ (text.take start).getLast? = some '\n'
  closed : text.drop (start + line.length) = [] ∨
    (text.drop (start + line.length)).head? = some '\n'

/-- The line that a place is in is a line of the text. -/
theorem isLineAt_around (before rest : List Char) :
    IsLineAt (before ++ rest) (lastLineStart before)
      (before.drop (lastLineStart before) ++ rest.takeWhile (· != '\n')) := by
  have hle := lastLineStart_le before
  have hlength : lastLineStart before +
      (before.drop (lastLineStart before) ++ rest.takeWhile (· != '\n')).length =
        before.length + (rest.takeWhile (· != '\n')).length := by
    rw [List.length_append, List.length_drop]
    omega
  refine ⟨?_, ?_, ?_, ?_⟩
  · rw [List.mem_append, not_or]
    refine ⟨not_mem_drop_lastLineStart before, fun hmem => ?_⟩
    simpa using List.mem_takeWhile_imp hmem
  · rw [List.drop_append_of_le_length hle]
    exact (List.prefix_append_right_inj _).mpr (List.takeWhile_prefix _)
  · rw [List.take_append_of_le_length hle]
    exact take_lastLineStart before
  · have hbehind : (before ++ rest).drop (before.length + (rest.takeWhile (· != '\n')).length) =
        rest.dropWhile (· != '\n') := by
      rw [← List.drop_drop, List.drop_left, drop_length_takeWhile]
    rw [hlength, hbehind]
    cases hdrop : rest.dropWhile (· != '\n') with
    | nil => exact Or.inl rfl
    | cons c more =>
      have hc := List.head?_dropWhile_not (· != '\n') rest
      rw [hdrop] at hc
      exact Or.inr (by simpa using hc)

end Text

namespace Position

open Text

/-- The place behind a text. -/
def endOf (text : List Char) : Position :=
  ⟨text.length, text.count '\n', text.length - lastLineStart text⟩

/-- The place behind one more character is one further. -/
theorem endOf_concat (text : List Char) (c : Char) :
    endOf (text ++ [c]) = (endOf text).advance c := by
  have hstart := lastLineStart_le text
  by_cases h : c = '\n'
  · simp [endOf, advance, lastLineStart_concat, h]
  · have hcount : (text ++ [c]).count '\n' = text.count '\n' := by simp [h]
    simp only [endOf, advance, lastLineStart_concat, h, if_false, List.length_append,
      List.length_singleton, hcount]
    rw [Nat.sub_add_comm hstart]

/-- Counting up over a text from its start comes to the place behind it. -/
theorem advanceOver_start (text : List Char) : advanceOver {} text = endOf text := by
  induction text using List.reverseRecOn with
  | nil => rfl
  | append_singleton text c ih =>
    rw [advanceOver_append, ih, endOf_concat]
    rfl

/-- The place behind two texts is reached from the place behind the first. -/
theorem endOf_append (before text : List Char) :
    endOf (before ++ text) = (endOf before).advanceOver text := by
  rw [← advanceOver_start, ← advanceOver_start, advanceOver_append]

/-- A place within a text or at its end: the line is the number of line feeds before it, and the
column the number of characters behind the last of them. -/
structure IsIn (text : List Char) (p : Position) : Prop where
  offset : p.offset ≤ text.length
  line : p.line = (text.take p.offset).count '\n'
  column : p.column = p.offset - lastLineStart (text.take p.offset)

/-- The place behind the beginning of a text is in the text. -/
theorem isIn_endOf (before rest : List Char) : (endOf before).IsIn (before ++ rest) := by
  have htake : (before ++ rest).take (endOf before).offset = before := List.take_left
  refine ⟨by simp [endOf], ?_, ?_⟩
  · rw [htake]
    rfl
  · rw [htake]
    rfl

/-- A place in a text is the place behind what stands before it. -/
theorem IsIn.eq_endOf {text : List Char} {p : Position} (h : p.IsIn text) :
    p = endOf (text.take p.offset) := by
  obtain ⟨offset, line, column⟩ := p
  obtain ⟨hoffset, hline, hcolumn⟩ := h
  dsimp only at hoffset hline hcolumn ⊢
  rw [endOf, List.length_take_of_le hoffset, ← hline, ← hcolumn]

/-- A place in a text divides it. -/
theorem IsIn.exists_before {text : List Char} {p : Position} (h : p.IsIn text) :
    ∃ before, text = before ++ text.drop p.offset ∧ p = endOf before :=
  ⟨text.take p.offset, (List.take_append_drop _ _).symm, h.eq_endOf⟩

/-- Passing over characters within a line counts them in the column. -/
theorem column_advanceOver {text : List Char} (h : '\n' ∉ text) (p : Position) :
    (p.advanceOver text).column = p.column + text.length := by
  induction text generalizing p with
  | nil => rfl
  | cons c rest ih =>
    rw [List.mem_cons, not_or] at h
    rw [advanceOver_cons, ih h.2, advance, if_neg (Ne.symm h.1), List.length_cons]
    dsimp only
    omega

/-- The line grows by the line feeds that are passed over. -/
theorem line_advanceOver (p : Position) (text : List Char) :
    (p.advanceOver text).line = p.line + text.count '\n' := by
  induction text generalizing p with
  | nil => rfl
  | cons c rest ih =>
    rw [advanceOver_cons, ih, advance, List.count_cons]
    by_cases h : c = '\n'
    · simp only [h, if_true, beq_self_eq_true]
      omega
    · simp [h]

/-- Passing over characters within a line leaves the line as it is. -/
theorem line_advanceOver_of_not_mem {text : List Char} (h : '\n' ∉ text) (p : Position) :
    (p.advanceOver text).line = p.line := by
  rw [line_advanceOver, List.count_eq_zero.mpr h, Nat.add_zero]

/-- A place in a text is reached from each one before it by passing over what stands between. -/
theorem IsIn.exists_between {text : List Char} {p q : Position} (hp : p.IsIn text)
    (hq : q.IsIn text) (hle : p.offset ≤ q.offset) : ∃ between, q = p.advanceOver between := by
  obtain ⟨count, hcount⟩ := Nat.exists_eq_add_of_le hle
  refine ⟨(text.drop p.offset).take count, ?_⟩
  conv_lhs => rw [hq.eq_endOf, hcount, List.take_add, endOf_append, ← hp.eq_endOf]

/-- The same line and column are the same place when the one is not before the other. -/
theorem IsIn.eq_of_le {text : List Char} {p q : Position} (hp : p.IsIn text) (hq : q.IsIn text)
    (hle : p.offset ≤ q.offset) (hline : p.line = q.line) (hcolumn : p.column = q.column) :
    p = q := by
  obtain ⟨between, rfl⟩ := hp.exists_between hq hle
  rw [line_advanceOver] at hline
  have hunbroken : '\n' ∉ between := List.count_eq_zero.mp (by omega)
  rw [column_advanceOver hunbroken] at hcolumn
  obtain rfl : between = [] := List.length_eq_zero_iff.mp (by omega)
  rfl

/-- A place in a text is told by its line and column. -/
theorem IsIn.unique {text : List Char} {p q : Position} (hp : p.IsIn text) (hq : q.IsIn text)
    (hline : p.line = q.line) (hcolumn : p.column = q.column) : p = q := by
  obtain hle | hle := Nat.le_total p.offset q.offset
  · exact hp.eq_of_le hq hle hline hcolumn
  · exact (hq.eq_of_le hp hle hline.symm hcolumn.symm).symm

/-- The same place when the text that it is in stands behind another one, which ends at a base. -/
def shiftedBy (p base : Position) : Position :=
  ⟨base.offset + p.offset, base.line + p.line,
    if p.line = 0 then base.column + p.column else p.column⟩

/-- The start of a text is where the text before it ends. -/
@[simp] theorem shiftedBy_start (base : Position) : shiftedBy {} base = base := by
  simp [shiftedBy]

/-- Going on by a character is the same before a place is shifted and after. -/
theorem shiftedBy_advance (p base : Position) (c : Char) :
    (p.advance c).shiftedBy base = (p.shiftedBy base).advance c := by
  unfold advance
  split
  · simp [shiftedBy, Nat.add_assoc]
  · simp only [shiftedBy, Nat.add_assoc]
    split <;> rfl

/-- Going on over a text is the same before a place is shifted and after. -/
theorem shiftedBy_advanceOver (p base : Position) (text : List Char) :
    (p.advanceOver text).shiftedBy base = (p.shiftedBy base).advanceOver text := by
  induction text generalizing p with
  | nil => rfl
  | cons c rest ih => rw [advanceOver_cons, advanceOver_cons, ih, shiftedBy_advance]

end Position

end Lisplet
