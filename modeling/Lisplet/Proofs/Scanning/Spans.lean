import Lisplet.Proofs.Scanning.Layout
import Lisplet.Proofs.Text.Places

/-!
# What tokens take up

A token takes up the characters between the place that it starts at and the place behind it. There
are always some, they are what the token is read from, and nothing but blanks stands between them
and the place from which the token was asked for.
-/

namespace Lisplet

open Text

/-- Whether a lexeme is read from these characters: a parenthesis and a symbol from themselves, a
number from a numeral with its value, and a text from what stands between its quotes, where a
backslash counts for nothing but keeps the character behind it from ending the text. -/
def Lexeme.IsReadFrom (raw : List Char) : Lexeme → Prop
  | .openParen => raw = ['(']
  | .closeParen => raw = [')']
  | .symbol name => raw = name.toList
  | .number x => (Numeral.read? raw).map Numeral.value = some x
  | .text s => ∃ inner, raw = '"' :: (inner ++ ['"']) ∧
      Cursor.literal? (inner ++ ['"']) = some (inner ++ ['"'], s.toList) ∧ s.length ≤ inner.length

namespace Cursor

variable {whole : List Char} {p q : Cursor} {t : Token}

/-- A cursor that stands in a text, at the place that its position tells. -/
def StandsIn (whole : List Char) (p : Cursor) : Prop :=
  ∃ before, whole = before ++ p.rest ∧ p.position = .endOf before

/-- A cursor at the start of a text stands in it. -/
theorem standsIn_ofText (text : String) : (ofText text).StandsIn text.toList := ⟨[], rfl, rfl⟩

/-- Moving on keeps a cursor in its text. -/
theorem StandsIn.of_append (h : p.StandsIn whole) {raw : List Char} (hrest : p.rest = raw ++ q.rest)
    (hposition : q.position = p.position.advanceOver raw) : q.StandsIn whole := by
  obtain ⟨before, hwhole, hbefore⟩ := h
  refine ⟨before ++ raw, by rw [hwhole, hrest, List.append_assoc], ?_⟩
  rw [hposition, hbefore, Position.endOf_append]

/-- The place of a cursor that stands in a text is in the text. -/
theorem StandsIn.isIn (h : p.StandsIn whole) : p.position.IsIn whole := by
  obtain ⟨before, rfl, hbefore⟩ := h
  rw [hbefore]
  exact Position.isIn_endOf before p.rest

/-- What is left to read is what the text has from the place of the cursor on. -/
theorem StandsIn.drop_offset (h : p.StandsIn whole) : whole.drop p.position.offset = p.rest := by
  obtain ⟨before, rfl, hbefore⟩ := h
  rw [hbefore]
  exact List.drop_left

/-- The characters at the front of what is left to read stand in the text from the place of the
cursor on. -/
theorem StandsIn.exists_mem (h : p.StandsIn whole) {raw rest : List Char}
    (hrest : p.rest = raw ++ rest) {i : ℕ} (hlower : p.position.offset ≤ i)
    (hupper : i < p.position.offset + raw.length) : ∃ c ∈ raw, whole[i]? = some c := by
  obtain ⟨count, rfl⟩ := Nat.exists_eq_add_of_le hlower
  have hcount : count < raw.length := by omega
  refine ⟨raw[count], List.getElem_mem hcount, ?_⟩
  rw [← List.getElem?_drop, h.drop_offset, hrest, List.getElem?_append_left hcount,
    List.getElem?_eq_getElem hcount]

/-- Passing over blanks keeps a cursor in its text. -/
theorem StandsIn.skipBlanks (h : p.StandsIn whole) : p.skipBlanks.StandsIn whole :=
  h.of_append (p.run_append isBlank).symm rfl

/-- Asking for a token keeps a cursor in its text. -/
theorem StandsIn.next (h : p.StandsIn whole) : p.next.2.StandsIn whole := by
  obtain ⟨raw, hrest, hposition⟩ := exists_raw_of_next (p := p) rfl
  exact h.of_append hrest hposition

/-- A token that takes up the characters between two cursors. -/
structure Takes (p : Cursor) (t : Token) (raw : List Char) (q : Cursor) : Prop where
  rest : p.rest = raw ++ q.rest
  position : q.position = p.position.advanceOver raw
  start : t.start = p.position
  length : t.length = raw.length
  nonempty : raw ≠ []
  readFrom : t.lexeme.IsReadFrom raw

/-- A text literal ends with its quote, and denotes no more characters than stand before that. -/
theorem exists_inner_of_literal? {text raw content : List Char}
    (h : literal? text = some (raw, content)) :
    ∃ inner, raw = inner ++ ['"'] ∧ content.length ≤ inner.length := by
  fun_induction literal? text generalizing raw content with
  | case1 => cases h
  | case2 rest =>
    cases h
    exact ⟨[], rfl, Nat.le_refl _⟩
  | case3 => cases h
  | case4 d more hne ih =>
    obtain ⟨⟨inner, denoted⟩, hinner, heq⟩ := Option.map_eq_some_iff.mp h
    cases heq
    obtain ⟨before, rfl, hlength⟩ := ih hinner
    exact ⟨'\\' :: d :: before, rfl, by simp only [List.length_cons]; omega⟩
  | case5 c rest hquote hslash ih =>
    obtain ⟨⟨inner, denoted⟩, hinner, heq⟩ := Option.map_eq_some_iff.mp h
    cases heq
    obtain ⟨before, rfl, hlength⟩ := ih hinner
    exact ⟨c :: before, rfl, by simp only [List.length_cons]; omega⟩

/-- A token whose characters stand at a cursor takes them up. -/
theorem takes_token {raw : List Char} (hraw : raw <+: p.rest) (hne : raw ≠ []) {lexeme : Lexeme}
    (hread : lexeme.IsReadFrom raw) :
    p.Takes ⟨lexeme, p.position, raw.length⟩ raw (p.past raw) :=
  ⟨rest_past hraw, rfl, rfl, rfl, hne, hread⟩

/-- A run that the first character belongs to is not empty. -/
theorem run_ne_nil {test : Char → Bool} {c : Char} {rest : List Char} (h : p.rest = c :: rest)
    (hc : test c = true) : p.run test ≠ [] := by
  rw [run, h, List.takeWhile_cons_of_pos hc]
  exact List.cons_ne_nil c _

/-- A token at a cursor that stands at no blank takes up the characters up to the cursor behind
it. -/
theorem Lexes.exists_takes {step : Step} (h : Lexes p step) (hstop : StopsRun isBlank p.rest)
    (htoken : step.1 = .ok (some t)) : ∃ raw, p.Takes t raw step.2 := by
  cases h with
  | finish h => cases htoken
  | @openParen rest h =>
    cases htoken
    exact ⟨_, takes_token ⟨rest, h.symm⟩ (List.cons_ne_nil _ _) rfl⟩
  | @closeParen rest h =>
    cases htoken
    exact ⟨_, takes_token ⟨rest, h.symm⟩ (List.cons_ne_nil _ _) rfl⟩
  | @text rest raw content h hliteral =>
    cases htoken
    obtain ⟨after, hafter⟩ := prefix_of_literal? hliteral
    obtain ⟨inner, rfl, hlength⟩ := exists_inner_of_literal? hliteral
    refine ⟨_, takes_token ⟨after, by rw [h, ← hafter, List.cons_append]⟩ (List.cons_ne_nil _ _) ?_⟩
    refine ⟨inner, rfl, ?_, by simpa using hlength⟩
    rw [String.toList_ofList]
    exact literal?_raw hliteral
  | unterminated h hliteral => cases htoken
  | @number raw h hraw hend hmatches =>
    cases htoken
    have hread : Numeral.read? raw = some (Numeral.denoted raw) := by
      rw [Numeral.read?_eq, if_pos hmatches]
    have hne : raw ≠ [] := by
      rintro rfl
      cases hread
    refine ⟨_, takes_token (hraw ▸ List.takeWhile_prefix _) hne ?_⟩
    rw [Lexeme.IsReadFrom, hread]
    rfl
  | malformed h hraw hend hmatches => cases htoken
  | unexpected h hraw hend => cases htoken
  | @symbol c rest raw h hopen hclose hquote hnumber hraw =>
    cases htoken
    rw [h, stopsRun_cons] at hstop
    have hne : raw ≠ [] := hraw ▸ run_ne_nil h (by simp [Scanner.endsAtom, hstop, hclose])
    exact ⟨_, takes_token (hraw ▸ List.takeWhile_prefix _) hne (String.toList_ofList).symm⟩

/-- The next token takes up the characters behind the blanks in front of it. -/
theorem exists_takes_of_next (h : p.next = (.ok (some t), q)) :
    ∃ raw, p.skipBlanks.Takes t raw q := by
  have hlexes := lexes_lexeme p.skipBlanks
  rw [← next, h] at hlexes
  exact hlexes.exists_takes (p.stopsRun_past_run isBlank) rfl

/-- The characters of a token are those that it takes up. -/
theorem Takes.raw_eq {raw : List Char} (h : p.Takes t raw q) (hp : p.StandsIn whole) :
    t.raw whole = raw := by
  rw [Token.raw, h.start, hp.drop_offset, h.rest, h.length, List.take_left]

/-- A token ends where the cursor behind it stands. -/
theorem Takes.offset_eq {raw : List Char} (h : p.Takes t raw q) :
    q.position.offset = t.start.offset + t.length := by
  rw [h.position, Position.offset_advanceOver, h.start, h.length]

end Cursor

end Lisplet
