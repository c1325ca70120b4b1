import Lisplet.Proofs.Scanning.LongestMatch

/-!
# The state machine scans by longest match

The scanner of the program goes through five states, consumes the blank that ends an atom and
keeps a closing parenthesis as a token of its own. It always stands where a longest-match cursor
stands, up to blanks it has already consumed or the parenthesis it keeps. One request preserves
this, whether it yields a token or an error, so all requests have the same outcomes.
-/

namespace Lisplet.Scanner

open Text

/-- Whether an unfinished number or symbol takes in a further character. -/
def takesIn : ScanState → Char → Bool
  | .number, c => isNumberChar c
  | .symbol, c => !endsAtom c
  | _, _ => false

/-- A scanner and a cursor that have the same text ahead of them: the scanner may have consumed
some of the blanks there, or a closing parenthesis that it keeps as a token. -/
inductive StandsAt : Scanner → Cursor → Prop
  | blanks (blanks : List Char) {rest : List Char} {position : Position}
      (h : ∀ c ∈ blanks, isBlank c = true) :
      StandsAt ⟨rest, position.advanceOver blanks, none⟩ ⟨blanks ++ rest, position⟩
  | kept {rest : List Char} {position : Position} :
      StandsAt ⟨rest, position.advance ')', some ⟨.closeParen, position, 1⟩⟩
        ⟨')' :: rest, position⟩

/-- A reading and a step that come to the same outcome and go on from the same place. -/
def Agrees (r : Reading (Option Token)) (step : Cursor.Step) : Prop :=
  r.outcome = step.1 ∧ r.scanner.StandsAt step.2

/-- A scanner that has consumed nothing stands at the cursor with the same text. -/
theorem standsAt_self (rest : List Char) (position : Position) :
    StandsAt ⟨rest, position, none⟩ ⟨rest, position⟩ :=
  .blanks [] (by simp)

/-- The scanner behind an atom stands at the character that ended the atom. -/
theorem standsAt_afterAtom {c : Char} (h : endsAtom c = true) (here : Position)
    (rest : List Char) : (afterAtom c here rest).StandsAt ⟨c :: rest, here⟩ := by
  unfold afterAtom
  split
  · next hc =>
    subst hc
    exact .kept
  · next hc =>
    have hblank : isBlank c = true := by simpa [endsAtom, hc] using h
    exact .blanks [c] (by simpa using hblank)

/-- A scanner that stands at the end of a text keeps nothing and is where the cursor is. -/
theorem eq_of_standsAt {s : Scanner} {p : Cursor} (h : s.StandsAt p) (hrest : p.rest = []) :
    s = ⟨[], p.position, none⟩ := by
  cases h with
  | blanks blanks hblanks =>
    obtain ⟨rfl, rfl⟩ := List.append_eq_nil_iff.mp hrest
    rfl
  | kept => simp at hrest

/-- A scanner that stands at the end of a text is at the same position as the cursor there. -/
theorem position_eq_of_standsAt {s : Scanner} {p : Cursor} (h : s.StandsAt p) (hrest : p.rest = []) :
    s.position = p.position := by
  rw [eq_of_standsAt h hrest]

/-- Scanning between tokens passes over blanks. -/
theorem scan_blanks {blanks : List Char} (h : ∀ c ∈ blanks, isBlank c = true) (here : Position)
    (text : List Char) : scan .base [] here here (blanks ++ text) =
      scan .base [] (here.advanceOver blanks) (here.advanceOver blanks) text := by
  induction blanks generalizing here with
  | nil => rfl
  | cons c rest ih =>
    have hc : isBlank c = true := h c (by simp)
    rw [List.cons_append, scan]
    simp only [hc, if_true]
    exact ih (fun d hd => h d (by simp [hd])) _

/-- Scanning an atom puts the characters that it takes in on the buffer. -/
theorem scan_run {state : ScanState} {run : List Char} (h : ∀ c ∈ run, takesIn state c = true)
    (buffer : List Char) (start here : Position) (text : List Char) :
    scan state buffer start here (run ++ text) =
      scan state (run.reverse ++ buffer) start (here.advanceOver run) text := by
  induction run generalizing buffer here with
  | nil => rfl
  | cons c rest ih =>
    have hstep : scan state buffer start here (c :: (rest ++ text)) =
        scan state (c :: buffer) start (here.advance c) (rest ++ text) := by
      have hc := h c (by simp)
      cases state with
      | number => simp [scan, show isNumberChar c = true from hc]
      | symbol => simp [scan, show endsAtom c = false by simpa [takesIn] using hc]
      | _ => simp [takesIn] at hc
    rw [List.cons_append, hstep, ih (fun d hd => h d (by simp [hd])), List.reverse_cons,
      List.append_assoc]
    rfl

/-- Scanning a text literal finds its end, or runs to the end of the text. -/
theorem scan_text (buffer : List Char) (start here : Position) (text : List Char) :
    scan .text buffer start here text =
      match Cursor.literal? text with
      | some (raw, content) =>
        ⟨.ok (some (tokenUpTo (.text (String.ofList (buffer.reverse ++ content))) start
            (here.advanceOver raw))), ⟨text.drop raw.length, here.advanceOver raw, none⟩⟩
      | none =>
        ⟨.error ⟨.unterminatedText, start.line, start.column,
            (here.advanceOver text).offset - start.offset⟩, ⟨[], here.advanceOver text, none⟩⟩ := by
  fun_induction Cursor.literal? text generalizing buffer here with
  | case1 => rfl
  | case2 rest => simp [scan]
  | case3 hne => simp [scan]
  | case4 d more hne ih =>
    have hstep : scan .text buffer start here ('\\' :: d :: more) =
        scan .text (d :: buffer) start ((here.advance '\\').advance d) more := by
      simp [scan]
    rw [hstep, ih]
    cases Cursor.literal? more <;> simp
  | case5 c rest hquote hslash ih =>
    have hstep : scan .text buffer start here (c :: rest) =
        scan .text (c :: buffer) start (here.advance c) rest := by
      simp [scan, hquote, hslash]
    rw [hstep, ih]
    cases Cursor.literal? rest <;> simp

/-- The length of a token is the number of characters from its start up to its end. -/
theorem tokenUpTo_advanceOver (lexeme : Lexeme) (start : Position) (raw : List Char) :
    tokenUpTo lexeme start (start.advanceOver raw) = ⟨lexeme, start, raw.length⟩ := by
  simp [tokenUpTo]

/-- A text literal is scanned as the longest-match scanner reads it. -/
theorem scan_text_agrees (p : Cursor) {rest : List Char} (h : p.rest = '"' :: rest) :
    Agrees (scan .base [] p.position p.position p.rest) p.lexeme := by
  have hstep : scan .base [] p.position p.position p.rest =
      scan .text [] p.position (p.position.advance '"') rest := by
    rw [h, scan]
    simp [show isBlank '"' = false by decide]
  have hlexeme : p.lexeme = p.quoted rest := by simp [Cursor.lexeme, h]
  rw [hstep, scan_text, hlexeme, Cursor.quoted, Agrees]
  cases Cursor.literal? rest with
  | none =>
    refine ⟨?_, ?_⟩
    · have hlength : p.position.offset + 1 + rest.length - p.position.offset = rest.length + 1 := by
        omega
      simp [h, hlength]
    · simpa [Cursor.past, h] using standsAt_self [] (p.position.advanceOver ('"' :: rest))
  | some literal =>
    obtain ⟨raw, content⟩ := literal
    refine ⟨?_, ?_⟩
    · have htoken := tokenUpTo_advanceOver (.text (String.ofList content)) p.position ('"' :: raw)
      simpa [Cursor.token] using htoken
    · simpa [Cursor.token, Cursor.past, h] using
        standsAt_self (rest.drop raw.length) (p.position.advanceOver ('"' :: raw))

/-- An atom is scanned from its first character on by taking in the longest run. -/
theorem scan_atom_run (state : ScanState) (p : Cursor) {raw : List Char}
    (hraw : raw = p.run (takesIn state)) :
    scan state [] p.position p.position p.rest =
      scan state raw.reverse p.position (p.past raw).position (p.past raw).rest := by
  subst hraw
  have htakes : ∀ c ∈ p.run (takesIn state), takesIn state c = true := fun c hc =>
    Cursor.of_mem_run hc
  have h := scan_run htakes [] p.position p.position (p.past (p.run (takesIn state))).rest
  rwa [Cursor.run_append, List.append_nil] at h

/-- The lexeme of a finished number is the one that the pattern of numerals gives it. -/
theorem atom?_number (raw : List Char) :
    atom? .number raw = if raw ∈ Numeral.pattern.matches'
      then some (.number (Numeral.denoted raw).value) else none := by
  rw [atom?, Numeral.read?_eq]
  split <;> rfl

/-- A number is scanned as the longest-match scanner reads it. -/
theorem scan_number_agrees (p : Cursor) :
    Agrees (scan .number [] p.position p.position p.rest) p.number := by
  have hscan := scan_atom_run .number p (show p.run isNumberChar = p.run (takesIn .number) from rfl)
  have hstop := p.stopsRun_past_run isNumberChar
  rw [hscan, Cursor.number]
  generalize p.run isNumberChar = raw at hstop ⊢
  have hatom := atom?_number raw
  have htoken := tokenUpTo_advanceOver (.number (Numeral.denoted raw).value) p.position raw
  have hposition : (p.past raw).position = p.position.advanceOver raw := rfl
  rw [← hposition] at htoken
  dsimp only [Cursor.numeral, Cursor.token]
  obtain ⟨⟨rest, here⟩, hq⟩ : ∃ q, q = p.past raw := ⟨_, rfl⟩
  rw [← hq] at hstop htoken ⊢
  have hself := standsAt_self rest here
  cases rest with
  | nil =>
    by_cases hmem : raw ∈ Numeral.pattern.matches'
    · simpa [scan, Agrees, hatom, hmem, htoken] using hself
    · simpa [scan, Agrees, hatom, hmem, malformed] using hself
  | cons c rest =>
    rw [stopsRun_cons] at hstop
    by_cases hc : endsAtom c = true
    · by_cases hmem : raw ∈ Numeral.pattern.matches'
      · simpa [scan, Agrees, hstop, hc, hatom, hmem, htoken] using standsAt_afterAtom hc here rest
      · simpa [scan, Agrees, hstop, hc, hatom, hmem, malformed] using hself
    · simpa [scan, Agrees, hstop, hc] using hself

/-- A symbol is scanned as the longest-match scanner reads it. -/
theorem scan_symbol_agrees (p : Cursor) :
    Agrees (scan .symbol [] p.position p.position p.rest) p.symbol := by
  have hscan := scan_atom_run .symbol p
    (show (p.run fun c => !endsAtom c) = p.run (takesIn .symbol) from rfl)
  have hstop := p.stopsRun_past_run fun c => !endsAtom c
  rw [hscan, Cursor.symbol]
  generalize (p.run fun c => !endsAtom c) = raw at hstop ⊢
  have htoken := tokenUpTo_advanceOver (.symbol (String.ofList raw)) p.position raw
  have hposition : (p.past raw).position = p.position.advanceOver raw := rfl
  rw [← hposition] at htoken
  dsimp only [Cursor.token]
  obtain ⟨⟨rest, here⟩, hq⟩ : ∃ q, q = p.past raw := ⟨_, rfl⟩
  rw [← hq] at hstop htoken ⊢
  cases rest with
  | nil => simpa [scan, Agrees, htoken, atom?] using standsAt_self [] here
  | cons c rest =>
    have hc : endsAtom c = true := by simpa using hstop
    simpa [scan, Agrees, hc, htoken] using standsAt_afterAtom hc here rest

/-- The two scanners agree on where a number starts. -/
theorem startsNumber_iff {c : Char} {rest : List Char} :
    startsNumber c rest = true ↔ Cursor.StartsNumber (c :: rest) := by
  cases rest <;> simp [startsNumber, Cursor.StartsNumber]

/-- A character that starts a number is a number character. -/
theorem isNumberChar_of_startsNumber {c : Char} {rest : List Char}
    (h : startsNumber c rest = true) : isNumberChar c = true := by
  obtain hc | ⟨hc, -⟩ := startsNumber_iff.mp h
  · simp [isNumberChar, hc]
  · rw [hc]
    decide

/-- A scanner between tokens agrees with a cursor that stands at no blank. -/
theorem scan_lexeme_agrees (p : Cursor) (h : StopsRun isBlank p.rest) :
    Agrees (scan .base [] p.position p.position p.rest) p.lexeme := by
  obtain ⟨rest, here⟩ := p
  cases rest with
  | nil => exact ⟨rfl, standsAt_self [] here⟩
  | cons c rest =>
    have hblank : isBlank c = false := by simpa using h
    by_cases hopen : c = '('
    · subst hopen
      simpa [scan, Cursor.lexeme, Agrees, Cursor.token, Cursor.past, hblank] using
        standsAt_self rest (here.advance '(')
    by_cases hclose : c = ')'
    · subst hclose
      simpa [scan, Cursor.lexeme, Agrees, Cursor.token, Cursor.past, hblank] using
        standsAt_self rest (here.advance ')')
    by_cases hquote : c = '"'
    · subst hquote
      exact scan_text_agrees _ rfl
    by_cases hnumber : startsNumber c rest = true
    · have hscan : scan .base [] here here (c :: rest) = scan .number [] here here (c :: rest) := by
        simp [scan, hblank, hopen, hclose, hquote, hnumber, isNumberChar_of_startsNumber hnumber]
      have hlexeme : Cursor.lexeme ⟨c :: rest, here⟩ = Cursor.number ⟨c :: rest, here⟩ := by
        simp [Cursor.lexeme, hopen, hclose, hquote, startsNumber_iff.mp hnumber]
      rw [hscan, hlexeme]
      exact scan_number_agrees ⟨c :: rest, here⟩
    · have hends : endsAtom c = false := by simp [endsAtom, hblank, hclose]
      have hscan : scan .base [] here here (c :: rest) = scan .symbol [] here here (c :: rest) := by
        simp [scan, hblank, hopen, hclose, hquote, hnumber, hends]
      have hlexeme : Cursor.lexeme ⟨c :: rest, here⟩ = Cursor.symbol ⟨c :: rest, here⟩ := by
        simp [Cursor.lexeme, hopen, hclose, hquote, mt startsNumber_iff.mpr hnumber]
      rw [hscan, hlexeme]
      exact scan_symbol_agrees ⟨c :: rest, here⟩

/-- A scanner between tokens scans from behind the blanks. -/
theorem scan_skipBlanks (p : Cursor) :
    scan .base [] p.position p.position p.rest =
      scan .base [] p.skipBlanks.position p.skipBlanks.position p.skipBlanks.rest := by
  have h := scan_blanks (fun c hc => Cursor.of_mem_run (p := p) hc) p.position p.skipBlanks.rest
  rwa [Cursor.skipBlanks, Cursor.run_append] at h

/-- One request preserves the agreement of a scanner with a cursor. -/
theorem next_agrees {s : Scanner} {p : Cursor} (h : s.StandsAt p) : Agrees s.next p.next := by
  cases h with
  | @blanks blanks rest position hblanks =>
    have hscan := scan_skipBlanks ⟨rest, position.advanceOver blanks⟩
    have hstop := Cursor.stopsRun_past_run ⟨rest, position.advanceOver blanks⟩ isBlank
    rw [Cursor.next, Cursor.skipBlanks_append hblanks]
    change Agrees (scan .base [] _ _ rest) _
    rw [hscan]
    exact scan_lexeme_agrees _ hstop
  | @kept rest position =>
    have hskip : Cursor.skipBlanks ⟨')' :: rest, position⟩ = ⟨')' :: rest, position⟩ := by
      simp [Cursor.skipBlanks, Cursor.run, Cursor.past, show isBlank ')' = false by decide]
    rw [Cursor.next, hskip]
    exact ⟨rfl, standsAt_self rest (position.advance ')')⟩

/-- What a number of requests for a token come to, one after the other, each made where the one
before it left the scanner, whether that yielded a token or failed. -/
def outcomes : ℕ → Scanner → List (Except SyntaxError (Option Token))
  | 0, _ => []
  | count + 1, s => s.next.outcome :: outcomes count s.next.scanner

/-- A scanner and a cursor that stand at the same text yield the same from there on. -/
theorem outcomes_eq_of_standsAt {s : Scanner} {p : Cursor} (h : s.StandsAt p) (count : ℕ) :
    s.outcomes count = p.outcomes count := by
  induction count generalizing s p with
  | zero => rfl
  | succ count ih =>
    obtain ⟨houtcome, hstands⟩ := next_agrees h
    rw [outcomes, Cursor.outcomes, houtcome, ih hstands]

/-- However many tokens are asked for, the state machine and the longest-match scanner come to
the same tokens and the same errors on every text. -/
theorem outcomes_ofText (text : String) (count : ℕ) :
    (ofText text).outcomes count = (Cursor.ofText text).outcomes count :=
  outcomes_eq_of_standsAt (standsAt_self text.toList {}) count

end Lisplet.Scanner
