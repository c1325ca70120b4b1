import Lisplet.Proofs.Scanning.Relocation
import Lisplet.Proofs.Text.Places

/-!
# Tokens line by line

A text in which no literal goes beyond the end of its line scans line by line. Each line, without
the blanks at its ends, spells the tokens that start in it, and the tokens of a text are those of
its lines one after the other.
-/

namespace Lisplet

open Text

/-- The characters of a token in the text that it was found in. -/
def Token.raw (text : List Char) (t : Token) : List Char :=
  (text.drop t.start.offset).take t.length

namespace Cursor

variable {whole : List Char} {p q : Cursor} {t : Token} {tokens : List Token} {here : Position}

/-- A cursor that stands in a text at its offset. -/
def In (whole : List Char) (p : Cursor) : Prop := whole.drop p.position.offset = p.rest

/-- Moving on keeps a cursor in its text. -/
theorem In.of_append (h : p.In whole) (raw : List Char) (hrest : p.rest = raw ++ q.rest)
    (hposition : q.position = p.position.advanceOver raw) : q.In whole := by
  rw [In] at h
  rw [In, hposition, Position.offset_advanceOver, ← List.drop_drop, h, hrest, List.drop_left]

/-- Passing over blanks keeps a cursor in its text. -/
theorem In.skipBlanks (h : p.In whole) : p.skipBlanks.In whole :=
  h.of_append _ (p.run_append isBlank).symm rfl

/-- Asking for a token keeps a cursor in its text. -/
theorem In.next (h : p.In whole) {outcome : Except SyntaxError (Option Token)}
    (hnext : p.next = (outcome, q)) : q.In whole := by
  obtain ⟨raw, hrest, hposition⟩ := exists_raw_of_next hnext
  exact h.of_append raw hrest hposition

/-- The tokens of a text without line feeds start in one line. -/
theorem Yields.line_eq {ending : Except SyntaxError Position} (h : p.Yields tokens ending)
    (hline : '\n' ∉ p.rest) : ∀ t ∈ tokens, t.start.line = p.position.line := by
  induction h with
  | done h => simp
  | failed h => simp
  | @token p q t tokens ending h rest ih =>
    have hlexes := lexes_lexeme p.skipBlanks
    rw [← next, h] at hlexes
    have hblanks : '\n' ∉ p.run isBlank := fun hmem =>
      hline ((List.takeWhile_prefix isBlank).subset hmem)
    have hstart : t.start.line = p.position.line := by
      rw [hlexes.start_eq rfl]
      exact Position.line_advanceOver_of_not_mem hblanks p.position
    obtain ⟨raw, hrest, hposition⟩ := exists_raw_of_next h
    rw [hrest, List.mem_append, not_or] at hline
    rw [hposition, Position.line_advanceOver_of_not_mem hline.1] at ih
    exact List.forall_mem_cons.mpr ⟨hstart, ih hline.2⟩

/-- A text literal is one by itself. -/
theorem literal?_raw {text raw content : List Char} (h : literal? text = some (raw, content)) :
    literal? raw = some (raw, content) := by
  fun_induction literal? text generalizing raw content with
  | case1 => cases h
  | case2 rest =>
    cases h
    exact literal?_quote []
  | case3 => cases h
  | case4 d more hne ih =>
    obtain ⟨⟨inner, denoted⟩, hinner, heq⟩ := Option.map_eq_some_iff.mp h
    cases heq
    rw [literal?_backslash, ih hinner, Option.map_some]
  | case5 c rest hquote hslash ih =>
    obtain ⟨⟨inner, denoted⟩, hinner, heq⟩ := Option.map_eq_some_iff.mp h
    cases heq
    rw [literal?_cons hquote hslash, ih hinner, Option.map_some]

/-- A literal that does not end in a line but in the text behind it takes in the line feed. -/
theorem mem_of_literal? {line more raw content : List Char} (hline : literal? line = none)
    (h : literal? (line ++ '\n' :: more) = some (raw, content)) : '\n' ∈ raw := by
  have hbegins := prefix_of_literal? h
  obtain ⟨rest, rfl⟩ | ⟨tail, rfl⟩ :=
    List.prefix_or_prefix_of_prefix hbegins (List.prefix_append line ('\n' :: more))
  · rw [literal?_append (literal?_raw h)] at hline
    cases hline
  · cases tail with
    | nil =>
      have hraw := literal?_raw h
      rw [List.append_nil, hline] at hraw
      cases hraw
    | cons c tail =>
      rw [List.prefix_append_right_inj, List.cons_prefix_cons] at hbegins
      simp [hbegins.1]

/-- Where a literal is open at the end of a line, the token that it makes in a longer text, if it
makes one, takes in the line feed behind the line. -/
theorem exists_text_of_unterminated {e : SyntaxError} (h : p.next = (.error e, q))
    (hfault : e.fault = .unterminatedText) {more : List Char}
    (hin : (p.append ('\n' :: more)).In whole) {found : Option Token} {after : Cursor}
    (hfound : (p.append ('\n' :: more)).next = (.ok found, after)) :
    ∃ t, found = some t ∧ t.kind = .text ∧ '\n' ∈ t.raw whole := by
  have hskip := skipBlanks_append_more (skipBlanks_rest_ne_nil h (by simp)) ('\n' :: more)
  have hquote := hin.skipBlanks
  have hlexes := lexes_lexeme p.skipBlanks
  rw [← next, h] at hlexes
  rw [hskip] at hquote
  cases hlexes with
  | @unterminated rest hrest hline =>
    have happend := rest_append hrest ('\n' :: more)
    have hlexeme : (p.append ('\n' :: more)).next =
        (p.skipBlanks.append ('\n' :: more)).quoted (rest ++ '\n' :: more) := by
      rw [next, hskip]
      simp [lexeme, happend]
    rw [hlexeme, quoted] at hfound
    split at hfound
    · next raw content hliteral =>
      cases hfound
      obtain ⟨after, hafter⟩ := prefix_of_literal? hliteral
      refine ⟨_, rfl, rfl, ?_⟩
      rw [In, happend, ← hafter] at hquote
      rw [Token.raw, hquote]
      simpa using mem_of_literal? hline hliteral
    · cases hfound
  | malformed h hraw hend hmatches => cases hfault
  | unexpected h hraw hend => cases hfault

/-- A line that does not scan does so in a longer text only with a literal that takes in the line
feed behind it. -/
theorem Yields.exists_text_of_error {e : SyntaxError} (h : p.Yields tokens (.error e))
    {more : List Char} (hin : (p.append ('\n' :: more)).In whole) {all : List Token}
    (hall : (p.append ('\n' :: more)).Yields all (.ok here)) :
    ∃ t ∈ all, t.kind = .text ∧ '\n' ∈ t.raw whole := by
  have hends : EndsAtom ('\n' :: more) := endsAtom_cons.mpr (by decide)
  generalize herror : (Except.error e : Except SyntaxError Position) = ending at h
  induction h generalizing all with
  | done h => cases herror
  | @failed p q e' h =>
    cases herror
    -- an error other than an open literal stands whatever follows the line
    by_cases hfault : e.fault = .unterminatedText
    · cases hall with
      | done hnone =>
        obtain ⟨_, ht, -⟩ := exists_text_of_unterminated h hfault hin hnone
        cases ht
      | token hsome =>
        obtain ⟨_, ht, hraw⟩ := exists_text_of_unterminated h hfault hin hsome
        cases ht
        exact ⟨_, List.mem_cons_self, hraw⟩
    · obtain ⟨e'', hlonger, -⟩ :=
        (Yields.failed h).append_error hends fun hopen => absurd hopen hfault
      cases (hlonger.unique hall).2
  | @token p q t tokens ending h rest ih =>
    have hnext := next_append h hends
    cases hall with
    | done h' => cases hnext.symm.trans h'
    | token h' rest' =>
      cases hnext.symm.trans h'
      obtain ⟨t', ht', hkind, hmem⟩ := ih (hin.next hnext) rest' herror
      exact ⟨t', List.mem_cons_of_mem _ ht', hkind, hmem⟩

/-- A line scans as the tokens that start in it when the text that it is the first line of scans
and no literal goes beyond the line. -/
theorem Yields.split_line {line more : List Char} {position : Position}
    (hin : In whole ⟨line ++ '\n' :: more, position⟩)
    (h : Yields ⟨line ++ '\n' :: more, position⟩ tokens (.ok here))
    (htexts : ∀ t ∈ tokens, t.kind = .text → '\n' ∉ t.raw whole) :
    ∃ first others, tokens = first ++ others ∧
      Yields ⟨line, position⟩ first (.ok (position.advanceOver line)) ∧
      Yields ⟨more, (position.advanceOver line).advance '\n'⟩ others (.ok here) := by
  obtain ⟨first, ending, hfirst⟩ := exists_yields ⟨line, position⟩
  cases ending with
  | error e =>
    obtain ⟨t, ht, hkind, hmem⟩ := hfirst.exists_text_of_error hin h
    exact absurd hmem (htexts t ht hkind)
  | ok there =>
    obtain rfl := hfirst.position_eq
    obtain ⟨others, ending, hothers⟩ :=
      exists_yields ⟨more, (position.advanceOver line).advance '\n'⟩
    have hends : EndsAtom ('\n' :: more) := endsAtom_cons.mpr (by decide)
    have hblank : ∀ c ∈ ['\n'], isBlank c = true := List.forall_mem_singleton.mpr rfl
    have hwhole := hfirst.append hends (yields_blanks hblank hothers)
    obtain ⟨rfl, rfl⟩ := h.unique hwhole
    exact ⟨first, others, rfl, hfirst, hothers⟩

/-- A line that scans is blank exactly when no token starts in it. -/
theorem Yields.eq_nil_iff (h : p.Yields tokens (.ok here)) :
    tokens = [] ↔ trimWhere isBlank p.rest = [] := by
  rw [trimWhere_eq_nil_iff]
  constructor
  · rintro rfl
    cases h with
    | done h => exact isBlank_of_next_eq_none h
  · intro hblank
    exact (h.unique (yields_of_isBlank hblank p.position)).1

/-- A text that scans spells its lexemes also without the blanks at its ends. -/
theorem Yields.spells_trimWhere (h : p.Yields tokens (.ok here)) :
    Spells (trimWhere isBlank p.rest) (tokens.map Token.lexeme) := by
  obtain ⟨rest, position⟩ := p
  obtain ⟨before, after, hrest, hbefore, hafter⟩ := exists_around_trimWhere isBlank rest
  generalize trimWhere isBlank rest = line at hrest ⊢
  subst hrest
  exact spells_of_yields (yields_of_blanks_around hbefore hafter h)

end Cursor

/-- How tokens lie in lines, the first of which has the given number: a line holds the tokens that
start in it and spells them without the blanks at its ends, so it is blank when it holds none. -/
inductive Layout : ℕ → List (List Char) → List Token → Prop
  | nil {n : ℕ} : Layout n [] []
  | cons {n : ℕ} {line : List Char} {lines : List (List Char)} {first others : List Token}
      (spells : Cursor.Spells (trimWhere isBlank line) (first.map Token.lexeme))
      (blank : first = [] ↔ trimWhere isBlank line = [])
      (start : ∀ t ∈ first, t.start.line = n) (rest : Layout (n + 1) lines others) :
      Layout n (line :: lines) (first ++ others)

namespace Layout

variable {n : ℕ} {lines : List (List Char)} {tokens : List Token}

/-- Tokens start in the lines that they lie in. -/
theorem start_bounds (h : Layout n lines tokens) :
    ∀ t ∈ tokens, n ≤ t.start.line ∧ t.start.line < n + lines.length := by
  induction h with
  | nil => simp
  | cons spells blank start rest ih =>
    refine List.forall_mem_append.mpr ⟨fun t ht => ?_, fun t ht => ?_⟩
    · have hline := start t ht
      rw [List.length_cons]
      omega
    · obtain ⟨hlower, hupper⟩ := ih t ht
      rw [List.length_cons]
      omega

/-- Lines are blank exactly when no tokens lie in them. -/
theorem eq_nil_iff (h : Layout n lines tokens) :
    tokens = [] ↔ ∀ line ∈ lines, trimWhere isBlank line = [] := by
  induction h with
  | nil => simp
  | cons spells blank start rest ih =>
    rw [List.append_eq_nil_iff, List.forall_mem_cons, blank, ih]

/-- The tokens in lines one part of which is before the other are those in the two parts. -/
theorem exists_append {before after : List (List Char)} (h : Layout n (before ++ after) tokens) :
    ∃ earlier later, tokens = earlier ++ later ∧ Layout n before earlier ∧
      Layout (n + before.length) after later := by
  induction before generalizing n tokens with
  | nil => exact ⟨[], tokens, rfl, .nil, h⟩
  | cons line before ih =>
    cases h with
    | @cons _ _ _ first others spells blank start rest =>
      obtain ⟨earlier, later, rfl, hearlier, hlater⟩ := ih rest
      refine ⟨first ++ earlier, later, (List.append_assoc ..).symm,
        .cons spells blank start hearlier, ?_⟩
      rw [List.length_cons, Nat.add_comm before.length 1, ← Nat.add_assoc]
      exact hlater

/-- Tokens in lines and tokens in the lines behind lie in all these lines together. -/
theorem append {before after : List (List Char)} {earlier later : List Token}
    (h : Layout n before earlier) (hlater : Layout (n + before.length) after later) :
    Layout n (before ++ after) (earlier ++ later) := by
  induction h with
  | nil => exact hlater
  | @cons n line lines first others spells blank start _ ih =>
    rw [List.length_cons, Nat.add_comm lines.length 1, ← Nat.add_assoc] at hlater
    rw [List.cons_append, List.append_assoc]
    exact .cons spells blank start (ih hlater)

/-- Lines that are all ended spell the tokens that lie in them. -/
theorem spells (h : Layout n lines tokens) :
    Cursor.Spells (lines.flatMap (· ++ ['\n'])) (tokens.map Token.lexeme) := by
  induction h with
  | nil => exact Cursor.spells_nil
  | @cons n line lines first others spells blank start rest ih =>
    obtain ⟨before, after, hline, hbefore, hafter⟩ := exists_around_trimWhere isBlank line
    have hfirst := spells.between_blanks hbefore hafter
    rw [← hline] at hfirst
    rw [List.flatMap_cons, List.append_assoc, List.singleton_append, List.map_append]
    exact hfirst.separated rfl ih

/-- No tokens lie in lines behind the one that the last token starts in. -/
theorem eq_nil_of_last (h : Layout n lines tokens) {earlier : List Token} {last : Token}
    (hlast : (earlier ++ tokens).getLast? = some last) (hline : last.start.line < n) :
    tokens = [] := by
  by_contra hne
  rw [List.getLast?_append_of_ne_nil _ hne] at hlast
  have hbounds := h.start_bounds last (List.mem_of_getLast? hlast)
  omega

/-- A line has tokens before it, in it and behind it. There are tokens behind it as long as the line
that the last token starts in is to come, and then tokens in it but not behind it, and none in the
lines after that. -/
theorem exists_parts {before after : List (List Char)} {line : List Char}
    (h : Layout 0 (before ++ line :: after) tokens) {last : Token}
    (hlast : tokens.getLast? = some last) :
    ∃ earlier first others, tokens = earlier ++ first ++ others ∧ Layout 0 before earlier ∧
      Cursor.Spells (trimWhere isBlank line) (first.map Token.lexeme) ∧
      (first = [] ↔ trimWhere isBlank line = []) ∧
      (before.length < last.start.line → others ≠ []) ∧
      (before.length = last.start.line → first ≠ [] ∧ others = []) ∧
      (last.start.line < before.length → first = []) := by
  obtain ⟨earlier, later, rfl, hearlier, hlater⟩ := h.exists_append
  have hlower : ∀ t ∈ earlier, t.start.line < before.length := fun t ht => by
    have hbounds := hearlier.start_bounds t ht
    omega
  rw [Nat.zero_add] at hlater
  cases hlater with
  | @cons _ _ _ first others spells blank start rest =>
    rw [← List.append_assoc] at hlast
    -- the line that a token starts in tells in which of the three parts it is
    refine ⟨earlier, first, others, (List.append_assoc ..).symm, hearlier, spells, blank, ?_, ?_, ?_⟩
    · rintro hbefore rfl
      rw [List.append_nil] at hlast
      obtain hmem | hmem := List.mem_append.mp (List.mem_of_getLast? hlast)
      · have hline := hlower last hmem
        omega
      · have hline := start last hmem
        omega
    · intro hhere
      obtain rfl := rest.eq_nil_of_last hlast (by omega)
      refine ⟨?_, rfl⟩
      rintro rfl
      rw [List.append_nil, List.append_nil] at hlast
      have hline := hlower last (List.mem_of_getLast? hlast)
      omega
    · intro hbehind
      obtain rfl := rest.eq_nil_of_last hlast (by omega)
      rw [List.append_nil] at hlast
      by_contra hne
      rw [List.getLast?_append_of_ne_nil _ hne] at hlast
      have hline := start last (List.mem_of_getLast? hlast)
      omega

/-- A line that scans, before lines in which tokens lie. -/
theorem cons_yields {line : List Char} {position here : Position} {first : List Token}
    (hline : '\n' ∉ line) (h : Cursor.Yields ⟨line, position⟩ first (.ok here))
    {others : List Token} (hothers : Layout (position.line + 1) lines others) :
    Layout position.line (line :: lines) (first ++ others) :=
  .cons h.spells_trimWhere h.eq_nil_iff (h.line_eq hline) hothers

end Layout

/-- The tokens of a text that scans lie in its lines if no literal goes beyond its line. -/
theorem layout_of_yields {whole text : List Char} {position here : Position} {tokens : List Token}
    (hin : Cursor.In whole ⟨text, position⟩)
    (h : Cursor.Yields ⟨text, position⟩ tokens (.ok here))
    (htexts : ∀ t ∈ tokens, t.kind = .text → '\n' ∉ t.raw whole) :
    Layout position.line (lines text) tokens := by
  induction text using induction_lines generalizing position tokens with
  | line line hline =>
    rw [lines_of_not_mem hline, ← List.append_nil tokens]
    exact .cons_yields hline h .nil
  | more line rest hline ih =>
    obtain ⟨first, others, rfl, hfirst, hothers⟩ := h.split_line hin htexts
    have hnumber : ((position.advanceOver line).advance '\n').line = position.line + 1 := by
      rw [Position.advance, if_pos rfl, Position.line_advanceOver_of_not_mem hline]
    have hbehind : Cursor.In whole ⟨rest, (position.advanceOver line).advance '\n'⟩ := by
      refine hin.of_append (line ++ ['\n']) (by simp) ?_
      rw [Position.advanceOver_append]
      rfl
    have hlayout := ih hbehind hothers fun t ht => htexts t (List.mem_append_right first ht)
    rw [hnumber] at hlayout
    rw [lines_append hline]
    exact .cons_yields hline hfirst hlayout

end Lisplet
