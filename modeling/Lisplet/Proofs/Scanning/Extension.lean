import Lisplet.Proofs.Scanning.Tokens

/-!
# Texts that go on

Adding to a text leaves its tokens as they are as long as the addition cannot go on with the last
one: if that is an atom and ends the text, the addition has to start with a blank or a closing
parenthesis. A text that fails to scan still fails after closing parentheses have been added, since
they end no text literal and are no part of a number.
-/

namespace Lisplet

/-- Whether a token is a number or a symbol, which only what stands behind it brings to an end. -/
def Token.IsAtom (t : Token) : Prop := t.kind = .number ∨ t.kind = .symbol

namespace Cursor

open Text

/-- The same place in a text that goes on. -/
def append (p : Cursor) (more : List Char) : Cursor := ⟨p.rest ++ more, p.position⟩

/-- A text with an addition is the text that goes on with it. -/
theorem ofText_append (text more : String) :
    ofText (text ++ more) = (ofText text).append more.toList := by
  simp [ofText, append]

/-- A text that goes on still starts with the same character. -/
theorem rest_append {p : Cursor} {c : Char} {rest : List Char} (h : p.rest = c :: rest)
    (more : List Char) : (p.append more).rest = c :: (rest ++ more) := by
  rw [append, h, List.cons_append]

/-- What ends an atom is no number character. -/
theorem isNumberChar_of_endsAtom {c : Char} (h : Scanner.endsAtom c = true) :
    Scanner.isNumberChar c = false := by
  by_contra hne
  rw [Bool.not_eq_false] at hne
  have hmem : c ∈ ['0', '1', '2', '3', '4', '5', '6', '7', '8', '9'] ++
      ['.', 'e', 'E', '+', '-'] := by
    rw [List.mem_append, ← Numeral.isDigit_iff_mem]
    simpa [Scanner.isNumberChar, or_assoc] using hne
  fin_cases hmem <;> exact absurd h (by decide)

/-- No number goes on into a text before which an atom may end. -/
theorem EndsAtom.stopsRun_number {text : List Char} (h : EndsAtom text) :
    StopsRun Scanner.isNumberChar text := fun c hc => isNumberChar_of_endsAtom (h c hc)

/-- No symbol goes on into a text before which an atom may end. -/
theorem EndsAtom.stopsRun_symbol {text : List Char} (h : EndsAtom text) :
    StopsRun (fun c => !Scanner.endsAtom c) text := fun c hc => by simp [h c hc]

/-- An atom that may end before a text may end there whatever the text goes on with. -/
theorem EndsAtom.append {text more : List Char} (h : EndsAtom text)
    (hmore : text = [] → EndsAtom more) : EndsAtom (text ++ more) := by
  cases text with
  | nil => exact hmore rfl
  | cons c rest => exact endsAtom_cons.mpr (endsAtom_cons.mp h)

/-- An atom that may not end before a text may not end there whatever the text goes on with. -/
theorem not_endsAtom_append {text : List Char} (h : ¬ EndsAtom text) (more : List Char) :
    ¬ EndsAtom (text ++ more) := by
  cases text with
  | nil => exact absurd endsAtom_nil h
  | cons c rest => exact fun hmore => h (endsAtom_cons.mpr (endsAtom_cons.mp hmore))

/-- A run does not go on into a text that stops it. -/
theorem run_append_more {test : Char → Bool} {more : List Char} (h : StopsRun test more)
    (p : Cursor) : (p.append more).run test = p.run test := by
  rw [run, append, List.takeWhile_append, takeWhile_of_stopsRun h, List.append_nil]
  split
  · next hlength => exact ((List.takeWhile_prefix test).eq_of_length hlength).symm
  · rfl

/-- A run that the text behind it stops, also where the text goes on, is the same run. -/
theorem run_append_of_stopsRun {test : Char → Bool} {p : Cursor} {raw more : List Char}
    (hraw : p.run test = raw) (h : StopsRun test ((p.past raw).rest ++ more)) :
    (p.append more).run test = raw := by
  subst hraw
  rw [run, append, ← p.run_append test, List.append_assoc]
  exact takeWhile_append_of_stopsRun (fun c hc => of_mem_run hc) h

/-- Moving on within a text is not affected by how the text goes on. -/
theorem past_append_more {p : Cursor} {raw : List Char} (h : raw.length ≤ p.rest.length)
    (more : List Char) : (p.append more).past raw = (p.past raw).append more := by
  simp [past, append, List.drop_append_of_le_length h]

/-- A text literal that has ended is not affected by how the text goes on. -/
theorem literal?_append {text : List Char} {literal : List Char × List Char}
    (h : literal? text = some literal) (more : List Char) :
    literal? (text ++ more) = some literal := by
  fun_induction literal? text generalizing literal with
  | case1 => cases h
  | case2 rest =>
    rw [List.cons_append, literal?_quote]
    exact h
  | case3 => cases h
  | case4 d rest hne ih =>
    obtain ⟨inner, hinner, rfl⟩ := Option.map_eq_some_iff.mp h
    rw [List.cons_append, List.cons_append, literal?_backslash, ih hinner, Option.map_some]
  | case5 c rest hquote hslash ih =>
    obtain ⟨inner, hinner, rfl⟩ := Option.map_eq_some_iff.mp h
    rw [List.cons_append, literal?_cons hquote hslash, ih hinner, Option.map_some]

/-- A text without a quote ends no literal. -/
theorem literal?_eq_none {text : List Char} (h : '"' ∉ text) : literal? text = none := by
  fun_induction literal? text with
  | case1 => rfl
  | case2 rest => simp at h
  | case3 => rfl
  | case4 d more hne ih =>
    rw [ih fun hmem => h (by simp [hmem])]
    rfl
  | case5 c rest hquote hslash ih =>
    rw [ih fun hmem => h (by simp [hmem])]
    rfl

/-- A text literal that has not ended does not end in a text without a quote. -/
theorem literal?_append_eq_none {text more : List Char} (h : literal? text = none)
    (hmore : '"' ∉ more) : literal? (text ++ more) = none := by
  fun_induction literal? text with
  | case1 => exact literal?_eq_none hmore
  | case2 rest => cases h
  | case3 =>
    cases more with
    | nil => rfl
    | cons d rest =>
      have hrest : '"' ∉ rest := fun hmem => hmore (by simp [hmem])
      rw [List.singleton_append, literal?_backslash, literal?_eq_none hrest, Option.map_none]
  | case4 d rest hne ih =>
    rw [List.cons_append, List.cons_append, literal?_backslash, ih (Option.map_eq_none_iff.mp h),
      Option.map_none]
  | case5 c rest hquote hslash ih =>
    rw [List.cons_append, literal?_cons hquote hslash, ih (Option.map_eq_none_iff.mp h),
      Option.map_none]

/-- Where a number starts, it still starts when the text goes on. -/
theorem StartsNumber.append {text : List Char} (h : StartsNumber text) (more : List Char) :
    StartsNumber (text ++ more) := by
  cases text with
  | nil => exact absurd h (by simp [StartsNumber])
  | cons c rest =>
    obtain hc | ⟨hc, d, hd, hdigit⟩ := h
    · exact Or.inl hc
    · have hhead : (rest ++ more).head? = some d := by
        rw [List.head?_append, Option.mem_def.mp hd, Option.some_or]
      exact Or.inr ⟨hc, d, hhead, hdigit⟩

/-- Where no number starts, none starts when the text goes on, unless a lone minus sign goes on with
a digit. -/
theorem not_startsNumber_append {c : Char} {rest more : List Char}
    (h : ¬ StartsNumber (c :: rest)) (hmore : c :: rest = ['-'] → EndsAtom more) :
    ¬ StartsNumber (c :: rest ++ more) := by
  rintro (hc | ⟨rfl, d, hd, hdigit⟩)
  · exact h (Or.inl hc)
  · cases rest with
    | nil =>
      have hnumber := isNumberChar_of_endsAtom (hmore rfl d hd)
      simp [Scanner.isNumberChar, hdigit] at hnumber
    | cons e rest => exact h (Or.inr ⟨rfl, d, hd, hdigit⟩)

/-- A token stands where it stood, and the cursor behind it has more left to read. -/
theorem token_append {p : Cursor} {raw : List Char} (h : raw.length ≤ p.rest.length)
    (lexeme : Lexeme) (more : List Char) :
    (p.append more).token lexeme raw =
      ((p.token lexeme raw).1, (p.token lexeme raw).2.append more) := by
  rw [token, past_append_more h]
  rfl

/-- A text before which no run of symbol characters goes on ends atoms. -/
theorem endsAtom_of_stopsRun {text : List Char} (h : StopsRun (fun c => !Scanner.endsAtom c) text) :
    EndsAtom text := fun c hc => by simpa using h c hc

/-- A token that has been found is found again when the text goes on with something that cannot
be part of it. -/
theorem Lexes.append {p : Cursor} {step : Step} (h : Lexes p step) {t : Token}
    (htoken : step.1 = .ok (some t)) {more : List Char}
    (hmore : t.IsAtom → step.2.rest = [] → EndsAtom more) :
    Lexes (p.append more) (step.1, step.2.append more) := by
  cases h with
  | finish h => cases htoken
  | @openParen rest h =>
    rw [← token_append (by simp [h])]
    exact .openParen (rest_append h more)
  | @closeParen rest h =>
    rw [← token_append (by simp [h])]
    exact .closeParen (rest_append h more)
  | @text rest raw content h hliteral =>
    have hlength := (prefix_of_literal? hliteral).length_le
    rw [← token_append (by simpa [h] using hlength)]
    exact .text (rest_append h more) (literal?_append hliteral more)
  | unterminated h hliteral => cases htoken
  | @number raw h hraw hend hmatches =>
    cases htoken
    have hlength : raw.length ≤ p.rest.length := hraw ▸ p.length_run_le Scanner.isNumberChar
    have hends := hend.append (hmore (Or.inl rfl))
    rw [← token_append hlength]
    refine .number (h.append more) (run_append_of_stopsRun hraw hends.stopsRun_number) ?_ hmatches
    rwa [past_append_more hlength]
  | malformed h hraw hend hmatches => cases htoken
  | unexpected h hraw hend => cases htoken
  | @symbol c rest raw h hopen hclose hquote hnumber hraw =>
    cases htoken
    have hlength : raw.length ≤ p.rest.length := hraw ▸ p.length_run_le _
    have hend : EndsAtom (p.past raw).rest :=
      endsAtom_of_stopsRun (hraw ▸ p.stopsRun_past_run fun c => !Scanner.endsAtom c)
    have hends := hend.append (hmore (Or.inr rfl))
    rw [← token_append hlength]
    refine .symbol (rest_append h more) hopen hclose hquote ?_
      (run_append_of_stopsRun hraw hends.stopsRun_symbol)
    rw [h] at hnumber
    rw [Cursor.append, h]
    -- a lone minus sign is all that is left to read, so the addition ends it
    refine not_startsNumber_append hnumber fun hlone => hmore (Or.inr rfl) ?_
    rw [hlone] at h
    have hrun : (p.run fun c => !Scanner.endsAtom c) = ['-'] := by
      rw [run, h]
      rfl
    rw [← hraw, hrun]
    simp [token, past, h]

/-- Where scanning fails, it still fails when the text goes on with something that ends atoms and,
if the failure is an open literal, holds no quote. -/
theorem Lexes.append_error {p : Cursor} {step : Step} (h : Lexes p step) {e : SyntaxError}
    (herror : step.1 = .error e) {more : List Char} (hmore : EndsAtom more)
    (hquote : e.fault = .unterminatedText → '"' ∉ more) :
    ∃ e' q, Lexes (p.append more) (.error e', q) ∧ e'.fault = e.fault := by
  cases h with
  | finish h => cases herror
  | openParen h => cases herror
  | closeParen h => cases herror
  | text h hliteral => cases herror
  | @unterminated rest h hliteral =>
    cases herror
    exact ⟨_, _, .unterminated (rest_append h more)
      (literal?_append_eq_none hliteral (hquote rfl)), rfl⟩
  | number h hraw hend hmatches => cases herror
  | @malformed raw h hraw hend hmatches =>
    cases herror
    have hlength : raw.length ≤ p.rest.length := hraw ▸ p.length_run_le Scanner.isNumberChar
    refine ⟨_, _, .malformed (h.append more) ?_ ?_ hmatches, rfl⟩
    · rw [run_append_more hmore.stopsRun_number, hraw]
    · rw [past_append_more hlength]
      exact hend.append fun _ => hmore
  | @unexpected raw h hraw hend =>
    cases herror
    have hlength : raw.length ≤ p.rest.length := hraw ▸ p.length_run_le Scanner.isNumberChar
    refine ⟨_, _, .unexpected (h.append more) ?_ ?_, rfl⟩
    · rw [run_append_more hmore.stopsRun_number, hraw]
    · rw [past_append_more hlength]
      exact not_endsAtom_append hend more
  | symbol h hopen hclose hquote hnumber hraw => cases herror

/-- Blanks are skipped up to the same place when something but blanks is left to read. -/
theorem skipBlanks_append_more {p : Cursor} (h : p.skipBlanks.rest ≠ []) (more : List Char) :
    (p.append more).skipBlanks = p.skipBlanks.append more := by
  have hrun : (p.append more).run isBlank = p.run isBlank := by
    rw [run, append, List.takeWhile_append, if_neg]
    · rfl
    intro hlength
    have hsplit := congrArg List.length (p.run_append isBlank)
    rw [List.length_append] at hsplit
    change (p.run isBlank).length = p.rest.length at hlength
    exact h (List.length_eq_zero_iff.mp (by rw [skipBlanks]; omega))
  rw [skipBlanks, hrun, past_append_more (p.length_run_le isBlank)]
  rfl

/-- Where a token or an error is found, something but blanks is left to read. -/
theorem skipBlanks_rest_ne_nil {p q : Cursor} {outcome : Except SyntaxError (Option Token)}
    (h : p.next = (outcome, q)) (hne : outcome ≠ .ok none) : p.skipBlanks.rest ≠ [] := by
  intro hrest
  have hfinish := lexeme_eq_of_lexes (.finish hrest)
  rw [next, hfinish] at h
  exact hne (Prod.mk.inj h).1.symm

/-- The next token is the same when the text goes on with something that cannot be part of it. -/
theorem next_append_of_cut {p q : Cursor} {t : Token} (h : p.next = (.ok (some t), q))
    {more : List Char} (hmore : t.IsAtom → q.rest = [] → EndsAtom more) :
    (p.append more).next = (.ok (some t), q.append more) := by
  have hlexes := lexes_lexeme p.skipBlanks
  rw [← next, h] at hlexes
  rw [next, skipBlanks_append_more (skipBlanks_rest_ne_nil h (by simp))]
  exact lexeme_eq_of_lexes (hlexes.append rfl hmore)

/-- The next token is the same when the text goes on with something that ends atoms. -/
theorem next_append {p q : Cursor} {t : Token} (h : p.next = (.ok (some t), q)) {more : List Char}
    (hmore : EndsAtom more) : (p.append more).next = (.ok (some t), q.append more) :=
  next_append_of_cut h fun _ _ => hmore

/-- No token is found where nothing is left to read. -/
theorem Yields.eq_nil_of_rest {p : Cursor} {tokens : List Token}
    {ending : Except SyntaxError Position} (h : p.Yields tokens ending) (hrest : p.rest = []) :
    tokens = [] := by
  cases h with
  | done h => rfl
  | failed h => rfl
  | token h rest =>
    refine absurd ?_ (skipBlanks_rest_ne_nil h (by simp))
    simp [skipBlanks, past, hrest]

/-- The cursor behind a token is as far on as the token is long. -/
theorem Lexes.offset_eq {p : Cursor} {step : Step} (h : Lexes p step) {t : Token}
    (htoken : step.1 = .ok (some t)) : step.2.position.offset = t.start.offset + t.length := by
  cases h <;> cases htoken <;> exact Position.offset_advanceOver ..

/-- The tokens of a text that scans, followed by those of an addition, are the tokens of the text
with the addition, if that cannot go on with an atom at the end of the text. -/
theorem Yields.append_of_cut {p : Cursor} {tokens : List Token} {here : Position}
    (h : p.Yields tokens (.ok here)) {more : List Char}
    (hmore : ∀ t ∈ tokens.getLast?, t.IsAtom → t.start.offset + t.length = here.offset →
      EndsAtom more)
    {others : List Token} {ending : Except SyntaxError Position}
    (hothers : Yields ⟨more, here⟩ others ending) :
    (p.append more).Yields (tokens ++ others) ending := by
  generalize hok : (Except.ok here : Except SyntaxError Position) = result at h
  induction h with
  | @done p q h =>
    cases hok
    obtain ⟨rfl, hrest⟩ := next_eq_none h
    have hrun : p.run isBlank = p.rest := by
      have hsplit := p.run_append isBlank
      rwa [← skipBlanks, hrest, List.append_nil] at hsplit
    refine yields_blanks (fun c hc => of_mem_run (hrun ▸ hc)) ?_
    rwa [skipBlanks, hrun] at hothers
  | failed h => cases hok
  | @token p q t tokens ending h rest ih =>
    subst hok
    have hlexes := lexes_lexeme p.skipBlanks
    rw [← next, h] at hlexes
    refine .token (next_append_of_cut h fun hatom hrest => ?_) (ih ?_ rfl)
    · -- nothing is left behind the token, so it is the last one and ends the text
      obtain rfl := rest.eq_nil_of_rest hrest
      have hend := rest.position_eq
      rw [hrest, Position.advanceOver_nil] at hend
      exact hmore t rfl hatom (by rw [hend, hlexes.offset_eq rfl])
    · intro last hlast
      refine hmore last ?_
      rw [Option.mem_def, List.getLast?_cons, Option.mem_def.mp hlast]
      rfl

/-- The tokens of a text that scans, followed by those of an addition that ends atoms, are the
tokens of the text with the addition. -/
theorem Yields.append {p : Cursor} {tokens : List Token} {here : Position}
    (h : p.Yields tokens (.ok here)) {more : List Char} (hmore : EndsAtom more)
    {others : List Token} {ending : Except SyntaxError Position}
    (hothers : Yields ⟨more, here⟩ others ending) :
    (p.append more).Yields (tokens ++ others) ending :=
  h.append_of_cut (fun _ _ _ _ => hmore) hothers

/-- A text that fails to scan yields the same tokens and fails with the same fault when it goes on
with something that ends atoms and, if the failure is an open literal, holds no quote. -/
theorem Yields.append_error {p : Cursor} {tokens : List Token} {e : SyntaxError}
    (h : p.Yields tokens (.error e)) {more : List Char} (hmore : EndsAtom more)
    (hquote : e.fault = .unterminatedText → '"' ∉ more) :
    ∃ e', (p.append more).Yields tokens (.error e') ∧ e'.fault = e.fault := by
  generalize herror : (Except.error e : Except SyntaxError Position) = result at h
  induction h with
  | done h => cases herror
  | @failed p q e h =>
    cases herror
    have hlexes := lexes_lexeme p.skipBlanks
    rw [← next, h] at hlexes
    obtain ⟨e', r, hlexes', hfault⟩ := hlexes.append_error rfl hmore hquote
    rw [← skipBlanks_append_more (skipBlanks_rest_ne_nil h (by simp))] at hlexes'
    exact ⟨e', .failed (lexeme_eq_of_lexes hlexes'), hfault⟩
  | token h rest ih =>
    obtain ⟨e', hyields, hfault⟩ := ih herror
    exact ⟨e', .token (next_append h hmore) hyields, hfault⟩

end Cursor

end Lisplet
