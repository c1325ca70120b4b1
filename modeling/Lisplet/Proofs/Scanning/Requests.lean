import Lisplet.Proofs.Scanning.Coverage

/-!
# Tokens read one after the other

The tokens that a number of requests come to are read from the characters between the places before
and behind them, whatever goes on behind these. So those characters have the same tokens when they
are a text of their own.
-/

namespace Lisplet

open Text

namespace Cursor

variable {p q : Cursor} {t : Token} {tokens : List Token} {more : List Char}

/-- Requests that come to tokens one after the other and lead from one cursor to another. -/
def Reads (p : Cursor) (tokens : List Token) (q : Cursor) : Prop :=
  p.outcomes tokens.length = tokens.map (fun t => .ok (some t)) ∧ p.after tokens.length = q

/-- No requests lead nowhere. -/
theorem reads_nil : p.Reads [] q ↔ p = q := by simp [Reads, outcomes, after]

/-- The tokens that are read are the next one and those read behind it. -/
theorem reads_cons :
    p.Reads (t :: tokens) q ↔ p.next.1 = .ok (some t) ∧ p.next.2.Reads tokens q := by
  simp [Reads, outcomes, after, and_assoc]

/-- Tokens are read by moving past characters that stood at the cursor. -/
theorem Reads.exists_raw (h : p.Reads tokens q) :
    ∃ raw, p.rest = raw ++ q.rest ∧ q.position = p.position.advanceOver raw := by
  induction tokens generalizing p with
  | nil =>
    obtain rfl := reads_nil.mp h
    exact ⟨[], rfl, rfl⟩
  | cons t tokens ih =>
    obtain ⟨raw, hrest, hposition⟩ := exists_raw_of_next (p := p) (q := p.next.2) rfl
    obtain ⟨raw', hrest', hposition'⟩ := ih (reads_cons.mp h).2
    refine ⟨raw ++ raw', by rw [hrest, hrest', List.append_assoc], ?_⟩
    rw [hposition', hposition, Position.advanceOver_append]

/-- Tokens are read in the same way behind the blanks in front of them. -/
theorem Reads.skipBlanks (h : p.Reads (t :: tokens) q) : p.skipBlanks.Reads (t :: tokens) q := by
  rwa [reads_cons, next_skipBlanks, ← reads_cons]

/-- A text that stops a run also does when its end is cut off. -/
theorem stopsRun_of_append {test : Char → Bool} {text : List Char}
    (h : StopsRun test (text ++ more)) : StopsRun test text := by
  cases text with
  | nil => exact stopsRun_nil
  | cons c rest => exact stopsRun_cons.mpr (stopsRun_cons.mp h)

/-- An atom that may end before a text may also end there when the end of the text is cut off. -/
theorem endsAtom_of_append {text : List Char} (h : EndsAtom (text ++ more)) : EndsAtom text := by
  cases text with
  | nil => exact endsAtom_nil
  | cons c rest => exact endsAtom_cons.mpr (endsAtom_cons.mp h)

/-- A token that stands in a text before its end stands there also when the end is cut off. -/
theorem token_of_append {lexeme : Lexeme} {raw : List Char} (hraw : raw <+: (p.append more).rest)
    (h : (.ok (some t), q.append more) = (p.append more).token lexeme raw) :
    p.rest = raw ++ q.rest ∧ (.ok (some t), q) = p.token lexeme raw := by
  have hsplit := rest_past hraw
  obtain ⟨houtcome, hq⟩ := Prod.mk.inj h
  have hrest : p.rest ++ more = raw ++ q.rest ++ more := by
    rw [List.append_assoc]
    exact hsplit.trans (congrArg (fun cursor => raw ++ cursor.rest) hq).symm
  have hcut : p.rest = raw ++ q.rest := List.append_cancel_right hrest
  have hposition : q.position = p.position.advanceOver raw := congrArg Cursor.position hq
  refine ⟨hcut, Prod.ext houtcome ?_⟩
  obtain ⟨rest, position⟩ := q
  change position = _ at hposition
  change p.rest = raw ++ rest at hcut
  rw [token, past, hcut, List.drop_left, hposition]

/-- A run that a text stops is a run also when the end of the text is cut off. -/
theorem run_of_append {test : Char → Bool} {raw : List Char}
    (hraw : (p.append more).run test = raw) (hcut : p.rest = raw ++ q.rest)
    (h : StopsRun test q.rest) : p.run test = raw := by
  rw [run, hcut]
  exact takeWhile_append_of_stopsRun (fun c hc => of_mem_run (hraw ▸ hc)) h

/-- The token that a rule gives is the same when the text behind it is cut off. -/
theorem Lexes.of_append {step : Step} (h : Lexes (p.append more) step)
    (hstep : (.ok (some t), q.append more) = step) (hstop : StopsRun isBlank (p.append more).rest) :
    Lexes p (.ok (some t), q) := by
  cases h with
  | finish h => cases hstep
  | @openParen rest h =>
    obtain ⟨hcut, htoken⟩ := token_of_append ⟨rest, h.symm⟩ hstep
    rw [htoken]
    exact .openParen hcut
  | @closeParen rest h =>
    obtain ⟨hcut, htoken⟩ := token_of_append ⟨rest, h.symm⟩ hstep
    rw [htoken]
    exact .closeParen hcut
  | @text rest raw content h hliteral =>
    obtain ⟨after, hafter⟩ := prefix_of_literal? hliteral
    have hraw : '"' :: raw <+: (p.append more).rest :=
      ⟨after, by rw [h, ← hafter, List.cons_append]⟩
    obtain ⟨hcut, htoken⟩ := token_of_append hraw hstep
    rw [htoken]
    exact .text hcut (literal?_append (literal?_raw hliteral) q.rest)
  | unterminated h hliteral => cases hstep
  | @number raw h hraw hend hmatches =>
    obtain ⟨hcut, htoken⟩ := token_of_append (hraw ▸ List.takeWhile_prefix _) hstep
    have hrest : ((p.append more).past raw).rest = q.rest ++ more :=
      (congrArg (fun step : Step => step.2.rest) hstep).symm
    rw [hrest] at hend
    have hends : EndsAtom q.rest := endsAtom_of_append hend
    obtain ⟨spelling, hspelling⟩ := Numeral.mem_pattern.mp hmatches
    rw [htoken]
    refine .number ?_ (run_of_append hraw hcut hends.stopsRun_number) ?_ hmatches
    · rw [hcut, ← hspelling]
      exact (startsNumber_text spelling).append q.rest
    · rwa [past, hcut, List.drop_left]
  | malformed h hraw hend hmatches => cases hstep
  | unexpected h hraw hend => cases hstep
  | @symbol c rest raw h hopen hclose hquote hnumber hraw =>
    obtain ⟨hcut, htoken⟩ := token_of_append (hraw ▸ List.takeWhile_prefix _) hstep
    have hrest : ((p.append more).past raw).rest = q.rest ++ more :=
      (congrArg (fun step : Step => step.2.rest) hstep).symm
    have hstops := (p.append more).stopsRun_past_run fun c => !Scanner.endsAtom c
    rw [hraw, hrest] at hstops
    rw [h, stopsRun_cons] at hstop
    have hne : raw ≠ [] := hraw ▸ run_ne_nil h (by simp [Scanner.endsAtom, hstop, hclose])
    obtain ⟨d, inner, rfl⟩ := List.exists_cons_of_ne_nil hne
    -- the symbol starts with the same character whether or not the end is cut off
    obtain rfl : d = c := by
      have hfirst := h
      rw [Cursor.append, hcut] at hfirst
      exact (List.cons.inj hfirst).1
    rw [htoken]
    exact .symbol hcut hopen hclose hquote (fun hstarts => hnumber (hstarts.append more))
      (run_of_append hraw hcut (stopsRun_of_append hstops))

/-- Where a token is found although the end of the text is cut off, more than blanks is left. -/
theorem skipBlanks_rest_ne_nil_of_append
    (h : (p.append more).next = (.ok (some t), q.append more)) : p.skipBlanks.rest ≠ [] := by
  intro hnil
  obtain ⟨raw, htakes⟩ := exists_takes_of_next h
  obtain ⟨c, inner, rfl⟩ := List.exists_cons_of_ne_nil htakes.nonempty
  have hstop := (p.append more).stopsRun_past_run isBlank
  have hsplit := (p.append more).run_append isBlank
  rw [← skipBlanks, htakes.rest] at hstop hsplit
  have hwhole : (p.append more).run isBlank ++ (c :: inner ++ q.rest) ++ more = p.rest ++ more := by
    rw [List.append_assoc, List.append_assoc]
    exact hsplit
  have hcut := List.append_cancel_right hwhole
  have hblank : p.run isBlank = p.rest := by
    have hrun := p.run_append isBlank
    rwa [← skipBlanks, hnil, List.append_nil] at hrun
  have hc : isBlank c = true := by
    refine of_mem_run (p := p) ?_
    rw [hblank, ← hcut]
    simp
  rw [List.cons_append, stopsRun_cons, hc] at hstop
  cases hstop

/-- The next token is the same when the text behind it is cut off. -/
theorem next_of_append (h : (p.append more).next = (.ok (some t), q.append more)) :
    p.next = (.ok (some t), q) := by
  have hlexes := lexes_lexeme (p.append more).skipBlanks
  have hstop := (p.append more).stopsRun_past_run isBlank
  rw [← next, h] at hlexes
  rw [← skipBlanks] at hstop
  rw [skipBlanks_append_more (skipBlanks_rest_ne_nil_of_append h)] at hlexes hstop
  rw [next]
  exact lexeme_eq_of_lexes (hlexes.of_append rfl hstop)

/-- Cursors in texts that go on in the same way are the same when the texts are cut off. -/
theorem append_inj : p.append more = q.append more ↔ p = q := by
  obtain ⟨rest, position⟩ := p
  obtain ⟨rest', position'⟩ := q
  simp [append]

/-- Tokens are read in the same way when the text behind them is cut off. -/
theorem Reads.of_append (h : (p.append more).Reads tokens (q.append more)) : p.Reads tokens q := by
  induction tokens generalizing p with
  | nil =>
    exact reads_nil.mpr (append_inj.mp (reads_nil.mp h))
  | cons t tokens ih =>
    obtain ⟨hfirst, hothers⟩ := reads_cons.mp h
    obtain ⟨raw, hrest, -⟩ := hothers.exists_raw
    have hsplit : (p.append more).next.2.rest = raw ++ q.rest ++ more := by
      rw [hrest, List.append_assoc]
      rfl
    have hcursor : (p.append more).next.2 =
        append ⟨raw ++ q.rest, (p.append more).next.2.position⟩ more :=
      congrArg (Cursor.mk · (p.append more).next.2.position) hsplit
    have hnext := next_of_append (Prod.ext hfirst hcursor)
    rw [hcursor] at hothers
    rw [reads_cons, hnext]
    exact ⟨rfl, ih hothers⟩

/-- Tokens that are read up to the end of a text are all its tokens. -/
theorem Reads.yields (h : p.Reads tokens q) (hq : q.rest = []) :
    p.Yields tokens (.ok q.position) := by
  induction tokens generalizing p with
  | nil =>
    obtain rfl := reads_nil.mp h
    obtain ⟨rest, position⟩ := p
    change rest = [] at hq
    rw [hq]
    exact yields_nil position
  | cons t tokens ih =>
    obtain ⟨hfirst, hothers⟩ := reads_cons.mp h
    exact .token (Prod.ext hfirst rfl) (ih hothers)

/-- The characters from which tokens are read, without the blanks in front of them, have these
tokens alone. -/
theorem Reads.exists_yields (h : p.Reads (t :: tokens) q) :
    ∃ raw, t.start = p.skipBlanks.position ∧ p.skipBlanks.rest = raw ++ q.rest ∧
      q.position.offset = t.start.offset + raw.length ∧
      Yields ⟨raw, t.start⟩ (t :: tokens) (.ok q.position) := by
  obtain ⟨first, htakes⟩ := exists_takes_of_next (p := p) (Prod.ext (reads_cons.mp h).1 rfl)
  obtain ⟨raw, hrest, hposition⟩ := h.skipBlanks.exists_raw
  have hp : p.skipBlanks = append ⟨raw, t.start⟩ q.rest := by
    rw [append, ← hrest, htakes.start]
  have hq : q = append ⟨[], q.position⟩ q.rest := rfl
  have hreads := h.skipBlanks
  rw [hp, hq] at hreads
  refine ⟨raw, htakes.start, hrest, ?_, hreads.of_append.yields rfl⟩
  rw [hposition, Position.offset_advanceOver, htakes.start]

/-- A closing parenthesis takes up one character. -/
theorem offset_of_closeParen (h : p.next = (.ok (some t), q)) (hclose : t.lexeme = .closeParen) :
    q.position.offset = t.start.offset + 1 := by
  obtain ⟨raw, htakes⟩ := exists_takes_of_next h
  have hraw := htakes.readFrom
  rw [hclose] at hraw
  rw [htakes.offset_eq, htakes.length, show raw = [')'] from hraw]
  rfl

end Cursor

namespace Scanner

variable {s s' : Scanner} {p : Cursor} {t : Token} {tokens : List Token}

/-- Requests can be made in two parts. -/
theorem after_add (first others : ℕ) (s : Scanner) :
    s.after (first + others) = (s.after first).after others := by
  induction first generalizing s with
  | zero => rw [Nat.zero_add, after]
  | succ first ih => rw [Nat.succ_add, after, after, ih]

/-- What requests come to is what each of them comes to. -/
theorem mem_outcomes {outcome : Except SyntaxError (Option Token)} {count : ℕ} :
    outcome ∈ s.outcomes count ↔ ∃ i < count, (s.after i).next.outcome = outcome := by
  induction count generalizing s with
  | zero => simp [outcomes]
  | succ count ih =>
    rw [outcomes, List.mem_cons, ih]
    constructor
    · rintro (rfl | ⟨i, hi, h⟩)
      · exact ⟨0, Nat.succ_pos count, rfl⟩
      · exact ⟨i + 1, Nat.succ_lt_succ hi, h⟩
    · rintro ⟨i, hi, h⟩
      cases i with
      | zero => exact Or.inl h.symm
      | succ i => exact Or.inr ⟨i, Nat.lt_of_succ_lt_succ hi, h⟩

/-- Requests that come to tokens one after the other and lead from one scanner to another. -/
def Reads (s : Scanner) (tokens : List Token) (s' : Scanner) : Prop :=
  s.outcomes tokens.length = tokens.map (fun t => .ok (some t)) ∧ s.after tokens.length = s'

/-- No requests lead nowhere. -/
theorem reads_nil : s.Reads [] s' ↔ s = s' := by simp [Reads, outcomes, after]

/-- The tokens that are read are the next one and those read behind it. -/
theorem reads_cons :
    s.Reads (t :: tokens) s' ↔
      s.next.outcome = .ok (some t) ∧ s.next.scanner.Reads tokens s' := by
  simp [Reads, outcomes, after, and_assoc]

/-- A scanner reads the tokens that the cursor it stands at does, and stands where the cursor does
before the last of them. -/
theorem Reads.exists_last (h : s.Reads (tokens ++ [t]) s') (hstands : s.StandsAt p) :
    ∃ (last : Scanner) (q : Cursor), last.StandsAt q ∧ last.next.outcome = .ok (some t) ∧
      last.next.scanner = s' ∧
      q.next.1 = .ok (some t) ∧ p.Reads (tokens ++ [t]) q.next.2 := by
  induction tokens generalizing s p with
  | nil =>
    obtain ⟨hlast, hnone⟩ := reads_cons.mp h
    have hcursor : p.next.1 = .ok (some t) := (next_agrees hstands).1.symm.trans hlast
    exact ⟨s, p, hstands, hlast, reads_nil.mp hnone, hcursor,
      Cursor.reads_cons.mpr ⟨hcursor, Cursor.reads_nil.mpr rfl⟩⟩
  | cons u tokens ih =>
    obtain ⟨hfirst, hothers⟩ := reads_cons.mp h
    obtain ⟨houtcome, hnext⟩ := next_agrees hstands
    obtain ⟨last, q, hq, hlast, hs', hcursor, hreads⟩ := ih hothers hnext
    exact ⟨last, q, hq, hlast, hs', hcursor,
      Cursor.reads_cons.mpr ⟨houtcome.symm.trans hfirst, hreads⟩⟩

/-- Behind a closing parenthesis the scanner keeps nothing and is right where the cursor is,
whether it has only just read the parenthesis or has kept it. -/
theorem next_of_closeParen (hstands : s.StandsAt p) (h : s.next.outcome = .ok (some t))
    (hclose : t.lexeme = .closeParen) :
    s.next.scanner.pending = none ∧ s.next.scanner.position.offset = t.start.offset + 1 := by
  cases hstands with
  | @blanks blanks rest position hblanks =>
    have hscan := scan_skipBlanks ⟨rest, position.advanceOver blanks⟩
    have hstop := Cursor.stopsRun_past_run ⟨rest, position.advanceOver blanks⟩ isBlank
    change StopsRun isBlank (Cursor.skipBlanks ⟨rest, position.advanceOver blanks⟩).rest at hstop
    generalize Cursor.skipBlanks ⟨rest, position.advanceOver blanks⟩ = q at hscan hstop
    change (scan .base [] _ _ rest).outcome = _ at h
    change (scan .base [] _ _ rest).scanner.pending = none ∧
      (scan .base [] _ _ rest).scanner.position.offset = _
    rw [hscan] at h ⊢
    rw [(scan_lexeme_agrees q hstop).1] at h
    obtain ⟨raw, htakes⟩ := (Cursor.lexes_lexeme q).exists_takes hstop h
    have hraw := htakes.readFrom
    rw [hclose] at hraw
    have hrest := htakes.rest
    rw [show raw = [')'] from hraw, List.singleton_append] at hrest
    rw [hrest, htakes.start]
    simp [scan, show isBlank ')' = false by decide]
  | @kept rest position =>
    cases h
    exact ⟨rfl, Position.offset_advance position ')'⟩

end Scanner

end Lisplet
