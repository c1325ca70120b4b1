import Lisplet.Proofs.Scanning.Requests

/-!
# Asking for all tokens

Requests for tokens come to an end, also when they go on behind errors. Each one that finds a token
or fails passes over characters, so there are no more of them than the text has characters, and the
scanner stays at the end of the text once it has found nothing. A character is passed over by one
request only. If it is a closing parenthesis, that request comes to it as a token, or to a text
literal that it belongs to.
-/

namespace Lisplet

open Text

/-- Whether a request comes to a text literal that takes up the character at an offset. A literal
that does not end takes up as many characters as its error lies over. -/
def IsLiteralOver (text : List Char) (i : ℕ) : Except SyntaxError (Option Token) → Prop
  | .ok none => False
  | .ok (some t) => t.kind = .text ∧ t.start.offset ≤ i ∧ i < t.start.offset + t.length
  | .error e => e.fault = .unterminatedText ∧ ∃ place : Position, place.IsIn text ∧
      place.line = e.line ∧ place.column = e.column ∧ place.offset ≤ i ∧ i < place.offset + e.length

namespace Cursor

variable {whole : List Char} {p : Cursor} {i : ℕ}

/-- What a request can come to by passing over these characters: a closing parenthesis that is all
of them, a text literal made of them whether it ends or not, or else something in which there is no
closing parenthesis. -/
inductive PassesOver (p : Cursor) (raw : List Char) : Except SyntaxError (Option Token) → Prop
  | closeParen (h : raw = [')']) : PassesOver p raw (.ok (some ⟨.closeParen, p.position, 1⟩))
  | literal (s : String) : PassesOver p raw (.ok (some ⟨.text s, p.position, raw.length⟩))
  | openLiteral : PassesOver p raw
      (.error ⟨.unterminatedText, p.position.line, p.position.column, raw.length⟩)
  | other {outcome : Except SyntaxError (Option Token)} (h : ')' ∉ raw) : PassesOver p raw outcome

/-- The run of a number holds no closing parenthesis and is not empty where a number starts. -/
theorem number_run {raw : List Char} (h : StartsNumber p.rest)
    (hraw : p.run Scanner.isNumberChar = raw) : raw ≠ [] ∧ ')' ∉ raw := by
  subst hraw
  refine ⟨?_, fun hmem => absurd (of_mem_run hmem) (by decide)⟩
  cases hrest : p.rest with
  | nil =>
    rw [hrest] at h
    exact absurd h id
  | cons c rest =>
    rw [hrest] at h
    exact run_ne_nil hrest (Scanner.isNumberChar_of_startsNumber (Scanner.startsNumber_iff.mpr h))

/-- A rule other than the one for the end of the text passes over some characters. -/
theorem Lexes.exists_passesOver {step : Step} (h : Lexes p step) (hstop : StopsRun isBlank p.rest)
    (hstep : step.1 ≠ .ok none) :
    ∃ raw, raw ≠ [] ∧ p.rest = raw ++ step.2.rest ∧
      step.2.position = p.position.advanceOver raw ∧ PassesOver p raw step.1 := by
  have hpast (raw : List Char) (hne : raw ≠ []) (hraw : raw <+: p.rest)
      {outcome : Except SyntaxError (Option Token)} (hpasses : PassesOver p raw outcome) :
      ∃ raw', raw' ≠ [] ∧ p.rest = raw' ++ (p.past raw).rest ∧
        (p.past raw).position = p.position.advanceOver raw' ∧ PassesOver p raw' outcome :=
    ⟨raw, hne, rest_past hraw, rfl, hpasses⟩
  cases h with
  | finish h => exact absurd rfl hstep
  | @openParen rest h => exact hpast ['('] (List.cons_ne_nil _ _) ⟨rest, h.symm⟩ (.other (by decide))
  | @closeParen rest h => exact hpast [')'] (List.cons_ne_nil _ _) ⟨rest, h.symm⟩ (.closeParen rfl)
  | @text rest raw content h hliteral =>
    obtain ⟨after, hafter⟩ := prefix_of_literal? hliteral
    exact hpast _ (List.cons_ne_nil _ _) ⟨after, by rw [h, ← hafter, List.cons_append]⟩ (.literal _)
  | unterminated h hliteral =>
    exact hpast p.rest (h ▸ List.cons_ne_nil _ _) (List.prefix_refl _) .openLiteral
  | number h hraw hend hmatches =>
    obtain ⟨hne, hclose⟩ := number_run h hraw
    exact hpast _ hne (hraw ▸ List.takeWhile_prefix _) (.other hclose)
  | malformed h hraw hend hmatches =>
    obtain ⟨hne, hclose⟩ := number_run h hraw
    exact hpast _ hne (hraw ▸ List.takeWhile_prefix _) (.other hclose)
  | unexpected h hraw hend =>
    obtain ⟨hne, hclose⟩ := number_run h hraw
    exact hpast _ hne (hraw ▸ List.takeWhile_prefix _) (.other hclose)
  | symbol h hopen hclose hquote hnumber hraw =>
    subst hraw
    rw [h, stopsRun_cons] at hstop
    have hne : p.run (fun c => !Scanner.endsAtom c) ≠ [] :=
      run_ne_nil h (by simp [Scanner.endsAtom, hstop, hclose])
    exact hpast _ hne (List.takeWhile_prefix _)
      (.other fun hmem => absurd (of_mem_run hmem) (by decide))

/-- A request that is not at the end of the text passes over some characters behind the blanks. -/
theorem exists_passesOver (h : p.next.1 ≠ .ok none) :
    ∃ raw, raw ≠ [] ∧ p.skipBlanks.rest = raw ++ p.next.2.rest ∧
      p.next.2.position = p.skipBlanks.position.advanceOver raw ∧
      PassesOver p.skipBlanks raw p.next.1 :=
  (lexes_lexeme p.skipBlanks).exists_passesOver (p.stopsRun_past_run isBlank) h

/-- Less is left to read behind a request that is not at the end of the text. -/
theorem length_rest_next_lt (h : p.next.1 ≠ .ok none) : p.next.2.rest.length < p.rest.length := by
  obtain ⟨raw, hne, hrest, -, -⟩ := exists_passesOver h
  have hpos := List.length_pos_of_ne_nil hne
  have hsplit := congrArg List.length (p.run_append isBlank)
  rw [← skipBlanks, hrest, List.length_append, List.length_append] at hsplit
  omega

/-- Requests that do not come to the end of the text are no more than the characters left to
read. -/
theorem exists_next_eq_none (p : Cursor) :
    ∃ count ≤ p.rest.length, (∀ outcome ∈ p.outcomes count, outcome ≠ .ok none) ∧
      (p.after count).next.1 = .ok none := by
  induction hlength : p.rest.length using Nat.strong_induction_on generalizing p with
  | _ length ih =>
    subst hlength
    by_cases hnone : p.next.1 = .ok none
    · exact ⟨0, Nat.zero_le _, by simp [outcomes], hnone⟩
    · have hlt := length_rest_next_lt hnone
      obtain ⟨count, hcount, houtcomes, hlast⟩ := ih _ hlt p.next.2 rfl
      refine ⟨count + 1, by omega, ?_, hlast⟩
      exact List.forall_mem_cons.mpr ⟨hnone, houtcomes⟩

/-- The cursor behind one more request is the one behind the next token. -/
theorem after_succ (p : Cursor) (count : ℕ) : p.after (count + 1) = (p.after count).next.2 := by
  induction count generalizing p with
  | zero => rfl
  | succ count ih => exact ih p.next.2

/-- Requests never go back. -/
theorem offset_after_mono (p : Cursor) : Monotone fun count => (p.after count).position.offset := by
  apply monotone_nat_of_le_succ
  intro count
  obtain ⟨raw, -, hposition⟩ := exists_raw_of_next (p := p.after count) rfl
  rw [after_succ]
  exact offset_le_of_raw hposition

/-- A place between the start and the end of requests is passed over by one of them. -/
theorem exists_request {count : ℕ} (hlower : p.position.offset ≤ i)
    (hupper : i < (p.after count).position.offset) :
    ∃ k < count, (p.after k).position.offset ≤ i ∧ i < (p.after (k + 1)).position.offset := by
  induction count with
  | zero =>
    rw [after] at hupper
    omega
  | succ count ih =>
    by_cases hbefore : i < (p.after count).position.offset
    · obtain ⟨k, hk, hbounds⟩ := ih hbefore
      exact ⟨k, by omega, hbounds⟩
    · exact ⟨count, by omega, by omega, hupper⟩

/-- A place is passed over by one request only. -/
theorem request_unique {k l : ℕ} (hk : (p.after k).position.offset ≤ i)
    (hk' : i < (p.after (k + 1)).position.offset) (hl : (p.after l).position.offset ≤ i)
    (hl' : i < (p.after (l + 1)).position.offset) : k = l := by
  obtain hlt | heq | hgt := Nat.lt_trichotomy k l
  · have hmono := p.offset_after_mono (show k + 1 ≤ l from hlt)
    dsimp only at hmono
    omega
  · exact heq
  · have hmono := p.offset_after_mono (show l + 1 ≤ k from hgt)
    dsimp only at hmono
    omega

/-- A token lies between the places before and behind the request that comes to it. -/
theorem start_bounds {t : Token} (h : p.next.1 = .ok (some t)) :
    p.position.offset ≤ t.start.offset ∧
      t.start.offset + t.length = p.next.2.position.offset ∧ 1 ≤ t.length := by
  obtain ⟨raw, htakes⟩ := exists_takes_of_next (p := p) (Prod.ext h rfl)
  refine ⟨?_, htakes.offset_eq.symm, ?_⟩
  · rw [htakes.start]
    exact offset_le_of_raw rfl
  · rw [htakes.length]
    exact List.length_pos_of_ne_nil htakes.nonempty

/-- A literal that does not end lies between the place behind the blanks and the end of the text. -/
theorem openLiteral_bounds (hp : p.StandsIn whole) {e : SyntaxError} (h : p.next.1 = .error e)
    (hfault : e.fault = .unterminatedText) {place : Position} (hplace : place.IsIn whole)
    (hline : place.line = e.line) (hcolumn : place.column = e.column) :
    place = p.skipBlanks.position ∧ place.offset + e.length = p.next.2.position.offset := by
  have hlexes := lexes_lexeme p.skipBlanks
  have hnext : p.skipBlanks.lexeme = (.error e, p.next.2) := Prod.ext h rfl
  rw [hnext] at hlexes
  generalize hq : p.next.2 = q at hlexes
  cases hlexes with
  | unterminated hrest hliteral =>
    obtain rfl := hplace.unique hp.skipBlanks.isIn hline hcolumn
    exact ⟨rfl, (Position.offset_advanceOver _ _).symm⟩
  | malformed h hraw hend hmatches => cases hfault
  | unexpected h hraw hend => cases hfault

/-- What a literal takes up lies between the places before and behind the request that comes to
it. -/
theorem isLiteralOver_bounds (hp : p.StandsIn whole) (h : IsLiteralOver whole i p.next.1) :
    p.position.offset ≤ i ∧ i < p.next.2.position.offset := by
  cases houtcome : p.next.1 with
  | error e =>
    rw [houtcome] at h
    obtain ⟨hfault, place, hplace, hline, hcolumn, hlower, hupper⟩ := h
    obtain ⟨rfl, hend⟩ := openLiteral_bounds hp houtcome hfault hplace hline hcolumn
    have hskip : p.position.offset ≤ p.skipBlanks.position.offset := offset_le_of_raw rfl
    omega
  | ok found =>
    rw [houtcome] at h
    cases found with
    | none => exact absurd h id
    | some t =>
      obtain ⟨-, hlower, hupper⟩ := h
      obtain ⟨hstart, hend, -⟩ := start_bounds houtcome
      omega

/-- A closing parenthesis that a request passes over is part of a literal that the request comes to,
or is the token that it comes to. -/
theorem next_over_closeParen (hp : p.StandsIn whole) (hlower : p.position.offset ≤ i)
    (hupper : i < p.next.2.position.offset) (hchar : whole[i]? = some ')') :
    IsLiteralOver whole i p.next.1 ∨
      p.next.1 = .ok (some ⟨.closeParen, .endOf (whole.take i), 1⟩) := by
  have hsplit := p.run_append isBlank
  -- the parenthesis is none of the blanks in front
  have hskip : p.skipBlanks.position.offset ≤ i := by
    by_contra hblank
    have hin : i < p.position.offset + (p.run isBlank).length := by
      rw [skipBlanks, past, Position.offset_advanceOver] at hblank
      omega
    obtain ⟨c, hc, hwhole⟩ := hp.exists_mem hsplit.symm hlower hin
    rw [hchar] at hwhole
    obtain rfl := Option.some.inj hwhole
    exact absurd (of_mem_run hc) (by decide)
  have hnone : p.next.1 ≠ .ok none := by
    intro hnone
    rw [(next_eq_none (p := p) (q := p.next.2) (Prod.ext hnone rfl)).1] at hupper
    omega
  obtain ⟨raw, -, hrest, hposition, hpasses⟩ := exists_passesOver hnone
  rw [hposition, Position.offset_advanceOver] at hupper
  generalize p.next.1 = outcome at hpasses
  cases hpasses with
  | closeParen hraw =>
    rw [hraw, List.length_singleton] at hupper
    obtain rfl : i = p.skipBlanks.position.offset := by omega
    rw [← hp.skipBlanks.isIn.eq_endOf]
    exact Or.inr rfl
  | literal s => exact Or.inl ⟨rfl, hskip, hupper⟩
  | openLiteral => exact Or.inl ⟨rfl, _, hp.skipBlanks.isIn, rfl, rfl, hskip, hupper⟩
  | other hclose =>
    obtain ⟨c, hc, hwhole⟩ := hp.skipBlanks.exists_mem hrest hskip hupper
    rw [hchar] at hwhole
    obtain rfl := Option.some.inj hwhole
    exact absurd hc hclose

end Cursor

namespace Scanner

/-- Whether the character at an offset belongs to a text literal that some request comes to. -/
def InLiteral (text : String) (i : ℕ) : Prop :=
  ∃ k, IsLiteralOver text.toList i ((ofText text).after k).next.outcome

/-- At the end of a text nothing is found, and the scanner stays where it is. -/
theorem next_after_end (here : Position) (count : ℕ) :
    (after count ⟨[], here, none⟩).next = ⟨.ok none, ⟨[], here, none⟩⟩ := by
  induction count with
  | zero => rfl
  | succ count ih => exact ih

/-- However many requests have been made, the next one comes to what the cursor there does. -/
theorem outcome_after (text : String) (k : ℕ) :
    ((ofText text).after k).next.outcome = ((Cursor.ofText text).after k).next.1 :=
  (next_agrees ((standsAt_self text.toList {}).after k)).1

/-- A request that finds nothing comes to the end of the text. -/
theorem after_end {text : String} {count : ℕ}
    (h : ((Cursor.ofText text).after count).next.1 = .ok none) :
    (Cursor.ofText text).after (count + 1) = ⟨[], .endOf text.toList⟩ := by
  obtain ⟨before, hwhole, hposition⟩ := (Cursor.standsIn_ofText text).after (count + 1)
  have hrest : ((Cursor.ofText text).after (count + 1)).rest = [] := by
    rw [Cursor.after_succ]
    exact (Cursor.next_eq_none (Prod.ext h rfl)).2
  rw [hrest, List.append_nil] at hwhole
  rw [hwhole]
  exact congrArg₂ Cursor.mk hrest hposition

/-- A request that finds nothing leaves the scanner at the end of the text. -/
theorem next_after_last {text : String} {count : ℕ}
    (h : ((Cursor.ofText text).after count).next.1 = .ok none) :
    ((ofText text).after count).next = ⟨.ok none, ⟨[], .endOf text.toList, none⟩⟩ := by
  have hstart : (ofText text).StandsAt (Cursor.ofText text) := standsAt_self text.toList {}
  obtain ⟨houtcome, hstands⟩ := next_agrees (hstart.after count)
  have hend := after_end h
  rw [Cursor.after_succ] at hend
  rw [hend] at hstands
  have hscanner := eq_of_standsAt hstands rfl
  calc ((ofText text).after count).next
      = ⟨((ofText text).after count).next.outcome, ((ofText text).after count).next.scanner⟩ := rfl
    _ = ⟨.ok none, ⟨[], .endOf text.toList, none⟩⟩ := by rw [houtcome, h, hscanner]

/-- The request that comes to a closing parenthesis is the one that passes over its place. -/
theorem bounds_of_delivered {text : String} {i k : ℕ} (hchar : text.toList[i]? = some ')')
    (h : ((ofText text).after k).next.outcome =
      .ok (some ⟨.closeParen, .endOf (text.toList.take i), 1⟩)) :
    ((Cursor.ofText text).after k).position.offset ≤ i ∧
      i < ((Cursor.ofText text).after (k + 1)).position.offset := by
  obtain ⟨hi, -⟩ := List.getElem?_eq_some_iff.mp hchar
  have hoffset : (Position.endOf (text.toList.take i)).offset = i :=
    List.length_take_of_le (Nat.le_of_lt hi)
  rw [outcome_after] at h
  obtain ⟨hstart, hend, -⟩ := Cursor.start_bounds h
  dsimp only at hstart hend
  rw [Cursor.after_succ]
  omega

/-- No more requests than the text has characters come to a token or fail. All those behind them
find nothing and leave the scanner at the end of the text. A closing parenthesis that belongs to no
text literal, whether the literal ends or not, is what one request comes to as a token of its own,
and no other request comes to it again; one that belongs to a literal is what no request comes
to. -/
theorem requests_end_and_deliver (text : String) :
    ∃ count ≤ text.length,
      (∀ outcome ∈ (ofText text).outcomes count, outcome ≠ .ok none) ∧
      (∀ more, ((ofText text).after (count + more)).next =
        ⟨.ok none, ⟨[], .endOf text.toList, none⟩⟩) ∧
      ∀ i, text.toList[i]? = some ')' →
        (¬ InLiteral text i → ∃! k, ((ofText text).after k).next.outcome =
          .ok (some ⟨.closeParen, .endOf (text.toList.take i), 1⟩)) ∧
        (InLiteral text i → ∀ k, ((ofText text).after k).next.outcome ≠
          .ok (some ⟨.closeParen, .endOf (text.toList.take i), 1⟩)) := by
  have hstart : (ofText text).StandsAt (Cursor.ofText text) := standsAt_self text.toList {}
  obtain ⟨count, hcount, houtcomes, hlast⟩ := (Cursor.ofText text).exists_next_eq_none
  have hend := after_end hlast
  refine ⟨count, hcount, ?_, fun more => ?_, fun i hchar => ⟨fun hnone => ?_, ?_⟩⟩
  · rwa [outcomes_eq_of_standsAt hstart]
  · rw [after_add]
    cases more with
    | zero => exact next_after_last hlast
    | succ more =>
      change (((ofText text).after count).next.scanner.after more).next = _
      rw [next_after_last hlast]
      exact next_after_end _ more
  · have hbefore : i < ((Cursor.ofText text).after (count + 1)).position.offset := by
      rw [hend]
      exact (List.getElem?_eq_some_iff.mp hchar).1
    obtain ⟨k, -, hlower, hupper⟩ := Cursor.exists_request (Nat.zero_le i) hbefore
    have hin := (Cursor.standsIn_ofText text).after k
    rw [Cursor.after_succ] at hupper
    refine ⟨k, ?_, fun l hl => ?_⟩
    · dsimp only
      rw [outcome_after]
      obtain hliteral | hdelivered := Cursor.next_over_closeParen hin hlower hupper hchar
      · exact absurd ⟨k, by rwa [outcome_after]⟩ hnone
      · exact hdelivered
    · obtain ⟨hlower', hupper'⟩ := bounds_of_delivered hchar hl
      rw [← Cursor.after_succ] at hupper
      exact Cursor.request_unique hlower' hupper' hlower hupper
  · rintro ⟨l, hliteral⟩ k hk
    obtain ⟨hlower, hupper⟩ := bounds_of_delivered hchar hk
    have hbounds := hliteral
    rw [outcome_after] at hbounds
    obtain ⟨hlower', hupper'⟩ :=
      Cursor.isLiteralOver_bounds ((Cursor.standsIn_ofText text).after l) hbounds
    rw [← Cursor.after_succ] at hupper'
    obtain rfl := Cursor.request_unique hlower hupper hlower' hupper'
    rw [hk] at hliteral
    cases hliteral.1

/-- A closing parenthesis directly behind a malformed number is delivered, and one in a literal that
never ends is not. -/
theorem requests_end_and_deliver_behind_errors :
    (¬ InLiteral "-1e)\"a)" 3 ∧ ∃! k, ((ofText "-1e)\"a)").after k).next.outcome =
      .ok (some ⟨.closeParen, ⟨3, 0, 3⟩, 1⟩)) ∧
    InLiteral "-1e)\"a)" 6 ∧ ∀ k, ((ofText "-1e)\"a)").after k).next.outcome ≠
      .ok (some ⟨.closeParen, ⟨6, 0, 6⟩, 1⟩) := by
  have houtcomes : (ofText "-1e)\"a)").outcomes 7 = [.error ⟨.malformedNumber "-1e", 0, 0, 3⟩,
      .ok (some ⟨.closeParen, ⟨3, 0, 3⟩, 1⟩), .error ⟨.unterminatedText, 0, 4, 3⟩,
      .ok none, .ok none, .ok none, .ok none] := by decide +kernel
  obtain ⟨count, hcount, -, hlast, hclose⟩ := requests_end_and_deliver "-1e)\"a)"
  have houtside : ¬ InLiteral "-1e)\"a)" 3 := by
    rintro ⟨k, hk⟩
    by_cases hlate : k < 7
    · have hmem : ((ofText "-1e)\"a)").after k).next.outcome ∈ (ofText "-1e)\"a)").outcomes 7 :=
        mem_outcomes.mpr ⟨k, hlate, rfl⟩
      generalize ((ofText "-1e)\"a)").after k).next.outcome = outcome at hk hmem
      rw [houtcomes] at hmem
      fin_cases hmem
      · cases hk.1
      · cases hk.1
      · -- the literal starts behind the parenthesis
        obtain ⟨-, place, hplace, -, hcolumn, hlower, -⟩ := hk
        have hoffset := hplace.column
        dsimp only at hcolumn
        omega
      all_goals exact hk
    · obtain ⟨more, rfl⟩ := Nat.exists_eq_add_of_le (Nat.le_trans hcount (Nat.le_of_not_lt hlate))
      rw [hlast more] at hk
      exact hk
  have hinside : InLiteral "-1e)\"a)" 6 := by
    have herror : ((ofText "-1e)\"a)").after 2).next.outcome =
      .error ⟨.unterminatedText, 0, 4, 3⟩ := by decide +kernel
    refine ⟨2, ?_⟩
    rw [herror]
    exact ⟨rfl, ⟨4, 0, 4⟩, ⟨by decide, rfl, rfl⟩, rfl, rfl, by decide, by decide⟩
  exact ⟨⟨houtside, (hclose 3 rfl).1 houtside⟩, hinside, (hclose 6 rfl).2 hinside⟩

end Scanner

end Lisplet
