import Lisplet.Error.Source
import Lisplet.Proofs.Text.Places

/-!
# The excerpt of a source error

A source error is written out as four lines: its words, its place, the line at fault and a caret. No
part of these goes beyond its line. When the place is in the text, the line at fault is the whole
line around it, and the caret stands under the character that is there.
-/

namespace Lisplet

namespace Text

/-- The digits of a number hold no line feed. -/
theorem not_mem_toDigits {base : ℕ} (hbase : 1 < base) (hle : base ≤ 16) (n : ℕ) :
    '\n' ∉ Nat.toDigits base n := by
  have hdigit : ∀ d < 16, '\n' ≠ Nat.digitChar d := by decide
  induction n using Nat.strong_induction_on with
  | h n ih =>
    rw [Nat.toDigits_eq_if hbase]
    split
    · exact fun hmem => hdigit n (by omega) (List.mem_singleton.mp hmem)
    · next hlarge =>
      have hmod := Nat.mod_lt n (by omega : base > 0)
      rw [List.mem_append, not_or]
      exact ⟨ih (n / base) (Nat.div_lt_self (by omega) hbase),
        fun hmem => hdigit (n % base) (by omega) (List.mem_singleton.mp hmem)⟩

/-- A code point in hexadecimal digits holds no line feed. -/
theorem not_mem_hexadecimal (width n : ℕ) : '\n' ∉ hexadecimal width n := by
  rw [hexadecimal, List.mem_append, not_or]
  refine ⟨fun hmem => ?_, not_mem_toDigits (by decide) (by decide) n⟩
  exact absurd (List.eq_of_mem_replicate hmem) (by decide)

/-- An escaped character holds no line feed. -/
theorem not_mem_escaped {quote : Char} (hquote : quote ≠ '\n') (c : Char) :
    '\n' ∉ escaped quote c := by
  unfold escaped
  split
  · next h =>
    have hc : c ≠ '\n' := by
      obtain rfl | rfl := h
      · exact hquote
      · decide
    simpa using hc.symm
  split
  · decide
  split
  · decide
  split
  · decide
  split
  · next hfeed _ _ _ => simpa using Ne.symm hfeed
  split
  · simpa using not_mem_hexadecimal 2 c.toNat
  split
  · simpa using not_mem_hexadecimal 4 c.toNat
  · simpa using not_mem_hexadecimal 8 c.toNat

/-- A quoted text holds no line feed. -/
theorem not_mem_quoted (text : String) : '\n' ∉ (quoted text).toList := by
  have hquote : enclosingQuote text.toList ≠ '\n' := by
    unfold enclosingQuote
    split <;> decide
  rw [quoted, String.toList_ofList, List.mem_cons, List.mem_append, not_or, not_or]
  refine ⟨hquote.symm, fun hmem => ?_, by simpa using hquote.symm⟩
  obtain ⟨c, -, hc⟩ := List.mem_flatMap.mp hmem
  exact not_mem_escaped hquote c hc

end Text

/-- The name of a kind of token holds no line feed. -/
theorem TokenKind.not_mem_name (kind : TokenKind) : '\n' ∉ kind.name.toList := by
  cases kind <;> simp [name]

/-- The words for a fault are one line. -/
theorem SyntaxFault.not_mem_message (fault : SyntaxFault) : '\n' ∉ fault.message.toList := by
  cases fault with
  | unexpectedCharacter =>
    change '\n' ∉ "Unexpected character in numeric literal".toList
    simp
  | malformedNumber raw =>
    change '\n' ∉ ("Malformed numeric literal " ++ Text.quoted raw).toList
    simpa using Text.not_mem_quoted raw
  | unterminatedText =>
    change '\n' ∉ "Unterminated string literal".toList
    simp
  | expected wanted got =>
    cases got with
    | none =>
      change '\n' ∉ ("expected " ++ wanted.name ++ ", got end of input").toList
      simpa using wanted.not_mem_name
    | some got =>
      change '\n' ∉ ("expected " ++ wanted.name ++ ", got " ++ got.name).toList
      simpa using ⟨wanted.not_mem_name, got.not_mem_name⟩
  | nestedTooDeeply =>
    change '\n' ∉ "maximum nesting depth exceeded".toList
    simp
  | unclosed =>
    change '\n' ∉ "unbalanced parenthesis".toList
    simp
  | trailingInput =>
    change '\n' ∉ "unexpected trailing input".toList
    simp

namespace SourceError

open Text (lines lines_append)

/-- A source error is written out as four lines, each of which ends with a line feed. -/
theorem lines_format {e : SourceError} (hmessage : '\n' ∉ e.message.toList) {line column : ℕ}
    (hline : e.line = line) (hcolumn : e.column = column) (hsource : '\n' ∉ e.sourceLine.toList) :
    lines e.format.toList = [e.message.toList,
      ("Line " ++ line.repr ++ " character " ++ column.repr).toList, e.sourceLine.toList,
      List.replicate column '-' ++ ['^'], []] := by
  have hplace : '\n' ∉ ("Line " ++ line.repr ++ " character " ++ column.repr).toList := by
    have hdigits := Text.not_mem_toDigits (show 1 < 10 by decide) (by decide)
    simpa using ⟨hdigits line, hdigits column⟩
  have hcaret : '\n' ∉ List.replicate column '-' ++ ['^'] := by
    rw [List.mem_append, not_or]
    exact ⟨fun hmem => absurd (List.eq_of_mem_replicate hmem) (by decide), by decide⟩
  have hformat : e.format.toList = e.message.toList ++ '\n' ::
      (("Line " ++ line.repr ++ " character " ++ column.repr).toList ++ '\n' ::
        (e.sourceLine.toList ++ '\n' :: (List.replicate column '-' ++ ['^'] ++ '\n' :: []))) := by
    rw [format, pointer, hline, hcolumn]
    simp [Int.repr]
  rw [hformat, lines_append hmessage, lines_append hplace, lines_append hsource,
    lines_append hcaret]
  rfl

end SourceError

namespace SyntaxError

open Text

variable {text : String} {e : SyntaxError} {place : Position}

/-- The line at fault is what stands around the place between the line feeds next to it. -/
theorem sourceLine_within {before rest : List Char} (htext : text.toList = before ++ rest)
    (hline : e.line = (Position.endOf before).line) :
    (e.within text).sourceLine.toList =
      before.drop (lastLineStart before) ++ rest.takeWhile (· != '\n') := by
  have hlines := lines_getElem?_count before rest
  rw [← htext] at hlines
  change (String.ofList ((lines text.toList)[e.line]?.getD [])).toList = _
  rw [String.toList_ofList, hline]
  change (lines text.toList)[before.count '\n']?.getD [] = _
  rw [hlines, Option.getD_some]

/-- What the excerpt of an error shows when its line and column are those of a place in the text:
the whole line that the place is in, the place within it or at its end, the character that is there,
and a caret under it in the last of four lines. -/
structure Shows (e : SyntaxError) (text : String) (place : Position) : Prop where
  line : ∃ start, IsLineAt text.toList start (e.within text).sourceLine.toList ∧
    start + e.column = place.offset
  column_le : e.column ≤ (e.within text).sourceLine.length
  character : ∀ c ∈ text.toList[place.offset]?, c ≠ '\n' →
    (e.within text).sourceLine.toList[e.column]? = some c
  format : lines (e.within text).format.toList = [e.fault.message.toList,
    ("Line " ++ e.line.repr ++ " character " ++ e.column.repr).toList,
    (e.within text).sourceLine.toList, List.replicate e.column '-' ++ ['^'], []]

/-- An error at a place in the text shows it. -/
theorem shows_of_isIn (hin : place.IsIn text.toList) (hline : e.line = place.line)
    (hcolumn : e.column = place.column) : e.Shows text place := by
  obtain ⟨before, htext, rfl⟩ := hin.exists_before
  generalize text.toList.drop (Position.endOf before).offset = rest at htext
  have hsource := sourceLine_within htext hline
  have hisline := isLineAt_around before rest
  rw [← htext, ← hsource] at hisline
  have hstart := lastLineStart_le before
  have hplace : e.column = (before.drop (lastLineStart before)).length := by
    rw [hcolumn, List.length_drop]
    rfl
  refine ⟨⟨_, hisline, ?_⟩, ?_, ?_,
    SourceError.lines_format e.fault.not_mem_message rfl rfl hisline.unbroken⟩
  · rw [hplace, List.length_drop]
    change _ = before.length
    omega
  · rw [← String.length_toList, hsource, hplace, List.length_append]
    exact Nat.le_add_right _ _
  · intro c hc hfeed
    rw [Option.mem_def, htext] at hc
    change (before ++ rest)[before.length]? = some c at hc
    rw [List.getElem?_append_right (Nat.le_refl _), Nat.sub_self, ← List.head?_eq_getElem?] at hc
    obtain ⟨more, rfl⟩ := List.head?_eq_some_iff.mp hc
    rw [hsource, hplace, List.getElem?_append_right (Nat.le_refl _), Nat.sub_self]
    simp [hfeed]

end SyntaxError

end Lisplet
