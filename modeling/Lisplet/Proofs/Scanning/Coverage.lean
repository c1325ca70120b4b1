import Lisplet.Proofs.Scanning.Spans

/-!
# Tokens cover their text

However many tokens have been asked for, the scanner knows its true place in the text, and so does
every token that has come to light. The tokens stand one behind the other, each is read from the
characters that it takes up, and as long as nothing has failed to scan there are only blanks
between them. One request preserves this for a cursor, and the scanner stands where the cursor does.
-/

namespace Lisplet

open Text

/-- The token that asking for one has come to, if there is one. -/
def foundToken? : Except SyntaxError (Option Token) → Option Token
  | .ok found => found
  | .error _ => none

/-- Tokens that lie in a text, one behind the other and all of them before the place that has been
reached. -/
structure Covers (text : List Char) (tokens : List Token) (reached : Position) : Prop where
  placed : ∀ t ∈ tokens, t.start.IsIn text
  nonempty : ∀ t ∈ tokens, 1 ≤ t.length
  within : ∀ t ∈ tokens, t.start.offset + t.length ≤ reached.offset
  readFrom : ∀ t ∈ tokens, t.lexeme.IsReadFrom (t.raw text)
  apart : tokens.Pairwise fun t u => t.start.offset + t.length ≤ u.start.offset

/-- Whether every character before the place that has been reached is a blank or belongs to a
token. -/
def LeavesBlanks (text : List Char) (tokens : List Token) (reached : Position) : Prop :=
  ∀ i < reached.offset, (∃ t ∈ tokens, t.start.offset ≤ i ∧ i < t.start.offset + t.length) ∨
    ∃ c, text[i]? = some c ∧ isBlank c = true

variable {text : List Char} {tokens : List Token} {here : Position}

/-- No tokens cover a text up to its start. -/
theorem covers_nil : Covers text [] here := ⟨by simp, by simp, by simp, by simp, .nil⟩

/-- What has been covered stays covered further on. -/
theorem Covers.mono (h : Covers text tokens here) {further : Position}
    (hle : here.offset ≤ further.offset) : Covers text tokens further :=
  { h with within := fun t ht => Nat.le_trans (h.within t ht) hle }

namespace Cursor

variable {p q : Cursor} {t : Token}

/-- Passing over characters goes on. -/
theorem offset_le_of_raw {raw : List Char} (h : q.position = p.position.advanceOver raw) :
    p.position.offset ≤ q.position.offset := by
  rw [h, Position.offset_advanceOver]
  exact Nat.le_add_right _ _

/-- A token that takes up characters behind what is covered joins the tokens there. -/
theorem Takes.covers {raw : List Char} (h : p.Takes t raw q) (hp : p.StandsIn text)
    (hcovers : Covers text tokens p.position) : Covers text (tokens ++ [t]) q.position := by
  have hle : p.position.offset ≤ q.position.offset := offset_le_of_raw h.position
  have hbefore := hcovers.mono hle
  refine ⟨?_, ?_, ?_, ?_, ?_⟩
  · refine List.forall_mem_append.mpr ⟨hcovers.placed, List.forall_mem_singleton.mpr ?_⟩
    rw [h.start]
    exact hp.isIn
  · refine List.forall_mem_append.mpr ⟨hcovers.nonempty, List.forall_mem_singleton.mpr ?_⟩
    rw [h.length]
    exact List.length_pos_of_ne_nil h.nonempty
  · refine List.forall_mem_append.mpr ⟨hbefore.within, List.forall_mem_singleton.mpr ?_⟩
    rw [h.offset_eq]
  · refine List.forall_mem_append.mpr ⟨hcovers.readFrom, List.forall_mem_singleton.mpr ?_⟩
    rw [h.raw_eq hp]
    exact h.readFrom
  · refine List.pairwise_append.mpr ⟨hcovers.apart, List.pairwise_singleton _ _, ?_⟩
    intro u hu v hv
    rw [List.mem_singleton.mp hv, h.start]
    exact hcovers.within u hu

/-- A token that takes up characters leaves only the blanks that were left before it. -/
theorem Takes.leavesBlanks {raw : List Char} (h : p.Takes t raw q)
    (hblanks : LeavesBlanks text tokens p.position) :
    LeavesBlanks text (tokens ++ [t]) q.position := by
  intro i hi
  by_cases hbefore : i < p.position.offset
  · obtain ⟨u, hu, hspan⟩ | hblank := hblanks i hbefore
    · exact Or.inl ⟨u, List.mem_append_left _ hu, hspan⟩
    · exact Or.inr hblank
  · refine Or.inl ⟨t, by simp, ?_, by rwa [← h.offset_eq]⟩
    rw [h.start]
    omega

/-- Blanks that are passed over are left. -/
theorem leavesBlanks_past {blanks : List Char} (hp : p.StandsIn text) (hbegins : blanks <+: p.rest)
    (hall : ∀ c ∈ blanks, isBlank c = true) (h : LeavesBlanks text tokens p.position) :
    LeavesBlanks text tokens (p.position.advanceOver blanks) := by
  intro i hi
  rw [Position.offset_advanceOver] at hi
  by_cases hbefore : i < p.position.offset
  · exact h i hbefore
  · obtain ⟨rest, hrest⟩ := hbegins
    obtain ⟨c, hc, hchar⟩ := hp.exists_mem hrest.symm (Nat.le_of_not_lt hbefore) hi
    exact Or.inr ⟨c, hchar, hall c hc⟩

/-- The cursor behind a number of requests for a token, whether they fail or not. -/
def after : ℕ → Cursor → Cursor
  | 0, p => p
  | count + 1, p => after count p.next.2

/-- Requests for tokens keep a cursor in its text. -/
theorem StandsIn.after (h : p.StandsIn text) (count : ℕ) : (p.after count).StandsIn text := by
  induction count generalizing p with
  | zero => exact h
  | succ count ih => exact ih h.next

/-- One request adds the token that it comes to, if it comes to one, to what is covered. -/
theorem covers_next (hp : p.StandsIn text) (h : Covers text tokens p.position) :
    Covers text (tokens ++ (foundToken? p.next.1).toList) p.next.2.position := by
  have hskip : Covers text tokens p.skipBlanks.position := h.mono (offset_le_of_raw rfl)
  obtain ⟨raw, -, hposition⟩ := exists_raw_of_next (p := p) rfl
  have hnone : Covers text (tokens ++ []) p.next.2.position := by
    rw [List.append_nil]
    exact h.mono (offset_le_of_raw hposition)
  cases houtcome : p.next.1 with
  | error e => exact hnone
  | ok found =>
    cases found with
    | none => exact hnone
    | some t =>
      obtain ⟨raw, htakes⟩ := exists_takes_of_next (p := p) (Prod.ext houtcome rfl)
      exact htakes.covers hp.skipBlanks hskip

/-- One request that does not fail leaves only blanks. -/
theorem leavesBlanks_next (hp : p.StandsIn text) (h : LeavesBlanks text tokens p.position)
    (hscans : ∀ e, p.next.1 ≠ .error e) :
    LeavesBlanks text (tokens ++ (foundToken? p.next.1).toList) p.next.2.position := by
  have hskip : LeavesBlanks text tokens p.skipBlanks.position :=
    leavesBlanks_past hp (List.takeWhile_prefix _) (fun c hc => of_mem_run hc) h
  cases houtcome : p.next.1 with
  | error e => exact absurd houtcome (hscans e)
  | ok found =>
    cases found with
    | none =>
      have hq : p.next.2 = p.skipBlanks := (next_eq_none (Prod.ext houtcome rfl)).1
      rw [hq, foundToken?, Option.toList_none, List.append_nil]
      exact hskip
    | some t =>
      obtain ⟨raw, htakes⟩ := exists_takes_of_next (p := p) (Prod.ext houtcome rfl)
      exact htakes.leavesBlanks hskip

/-- The tokens that requests come to cover a text behind those before them. -/
theorem covers_after (hp : p.StandsIn text) (h : Covers text tokens p.position) (count : ℕ) :
    Covers text (tokens ++ (p.outcomes count).filterMap foundToken?) (p.after count).position := by
  induction count generalizing p tokens with
  | zero => simpa [outcomes, after] using h
  | succ count ih =>
    have hrest := ih hp.next (covers_next hp h)
    rw [List.append_assoc] at hrest
    rw [outcomes, List.filterMap_cons]
    cases htoken : foundToken? p.next.1 <;> rw [htoken] at hrest <;> exact hrest

/-- Requests that do not fail leave only blanks. -/
theorem leavesBlanks_after (hp : p.StandsIn text) (h : LeavesBlanks text tokens p.position)
    (count : ℕ) (hscans : ∀ e, .error e ∉ p.outcomes count) :
    LeavesBlanks text (tokens ++ (p.outcomes count).filterMap foundToken?)
      (p.after count).position := by
  induction count generalizing p tokens with
  | zero => simpa [outcomes, after] using h
  | succ count ih =>
    simp only [outcomes, List.mem_cons, not_or] at hscans
    have hfirst := leavesBlanks_next hp h fun e he => (hscans e).1 he.symm
    have hrest := ih hp.next hfirst fun e => (hscans e).2
    rw [List.append_assoc] at hrest
    rw [outcomes, List.filterMap_cons]
    cases htoken : foundToken? p.next.1 <;> rw [htoken] at hrest <;> exact hrest

end Cursor

namespace Scanner

/-- The scanner behind a number of requests for a token, whether they fail or not. -/
def after : ℕ → Scanner → Scanner
  | 0, s => s
  | count + 1, s => after count s.next.scanner

/-- The tokens known after a number of requests: those that they came to, and the one that is
kept. -/
def known (s : Scanner) (count : ℕ) : List Token :=
  (s.outcomes count).filterMap foundToken? ++ (s.after count).pending.toList

/-- After the same number of requests a scanner stands where the cursor does. -/
theorem StandsAt.after {s : Scanner} {p : Cursor} (h : s.StandsAt p) (count : ℕ) :
    (s.after count).StandsAt (p.after count) := by
  induction count generalizing s p with
  | zero => exact h
  | succ count ih => exact ih (next_agrees h).2

/-- A scanner stands in the text that the cursor does, also where it is ahead. -/
theorem StandsAt.standsIn {s : Scanner} {p : Cursor} (h : s.StandsAt p) (hp : p.StandsIn text) :
    Cursor.StandsIn text ⟨s.rest, s.position⟩ := by
  cases h with
  | blanks blanks hblanks => exact hp.of_append rfl rfl
  | @kept rest position =>
    have hrest : ')' :: rest = [')'] ++ rest := rfl
    exact hp.of_append hrest rfl

/-- The parenthesis that a scanner keeps is the token at the cursor. -/
theorem takes_kept (rest : List Char) (position : Position) :
    Cursor.Takes ⟨')' :: rest, position⟩ ⟨.closeParen, position, 1⟩ [')']
      ⟨rest, position.advance ')'⟩ :=
  ⟨rfl, rfl, rfl, rfl, List.cons_ne_nil _ _, rfl⟩

/-- The token that a scanner keeps joins those that cover the text up to the cursor. -/
theorem StandsAt.covers {s : Scanner} {p : Cursor} (h : s.StandsAt p) (hp : p.StandsIn text)
    (hcovers : Covers text tokens p.position) :
    Covers text (tokens ++ s.pending.toList) s.position := by
  cases h with
  | blanks blanks hblanks =>
    rw [Option.toList_none, List.append_nil]
    exact hcovers.mono (by simp)
  | @kept rest position => exact (takes_kept rest position).covers hp hcovers

/-- A scanner that is ahead of the cursor has passed over blanks alone. -/
theorem StandsAt.leavesBlanks {s : Scanner} {p : Cursor} (h : s.StandsAt p) (hp : p.StandsIn text)
    (hblanks : LeavesBlanks text tokens p.position) :
    LeavesBlanks text (tokens ++ s.pending.toList) s.position := by
  cases h with
  | blanks blanks hall =>
    rw [Option.toList_none, List.append_nil]
    exact Cursor.leavesBlanks_past hp ⟨_, rfl⟩ hall hblanks
  | @kept rest position => exact (takes_kept rest position).leavesBlanks hblanks

/-- After any number of requests, whether they failed or not, the scanner is at its true place in
the text, and so are the tokens known by then. They stand one behind the other before that place,
and each is read from the characters that it takes up. Unless a request has failed, what no token
takes up is blank. -/
theorem covers_known (text : String) (count : ℕ) :
    ((ofText text).after count).position.IsIn text.toList ∧
      text.toList.drop ((ofText text).after count).position.offset =
        ((ofText text).after count).rest ∧
      Covers text.toList ((ofText text).known count) ((ofText text).after count).position ∧
      ((∀ e, .error e ∉ (ofText text).outcomes count) →
        LeavesBlanks text.toList ((ofText text).known count)
          ((ofText text).after count).position) := by
  have hstart : (ofText text).StandsAt (Cursor.ofText text) := standsAt_self text.toList {}
  have hstands := hstart.after count
  have hin := (Cursor.standsIn_ofText text).after count
  have hplace := hstands.standsIn hin
  rw [known, outcomes_eq_of_standsAt hstart]
  refine ⟨hplace.isIn, hplace.drop_offset, ?_, fun hscans => ?_⟩
  · have hcovers := Cursor.covers_after (Cursor.standsIn_ofText text) covers_nil count
    exact hstands.covers hin hcovers
  · have hnothing : LeavesBlanks text.toList [] (Cursor.ofText text).position := by
      intro i hi
      exact absurd hi (Nat.not_lt_zero i)
    exact hstands.leavesBlanks hin
      (Cursor.leavesBlanks_after (Cursor.standsIn_ofText text) hnothing count hscans)

/-- Once a symbol has been asked for, the parenthesis behind it is kept and covers the text as well;
then nothing but the blank in front is left. -/
theorem covers_known_kept :
    (∀ e, .error e ∉ (ofText " (ab)").outcomes 2) ∧
      (ofText " (ab)").known 2 =
        [⟨.openParen, ⟨1, 0, 1⟩, 1⟩, ⟨.symbol "ab", ⟨2, 0, 2⟩, 2⟩, ⟨.closeParen, ⟨4, 0, 4⟩, 1⟩] ∧
      LeavesBlanks " (ab)".toList ((ofText " (ab)").known 2) ⟨5, 0, 5⟩ := by
  have houtcomes : (ofText " (ab)").outcomes 2 =
      [.ok (some ⟨.openParen, ⟨1, 0, 1⟩, 1⟩), .ok (some ⟨.symbol "ab", ⟨2, 0, 2⟩, 2⟩)] := by
    decide +kernel
  have hscans : ∀ e, .error e ∉ (ofText " (ab)").outcomes 2 := by simp [houtcomes]
  have hreached : ((ofText " (ab)").after 2).position = ⟨5, 0, 5⟩ := by decide +kernel
  have hleaves := (covers_known " (ab)" 2).2.2.2 hscans
  rw [hreached] at hleaves
  exact ⟨hscans, by decide +kernel, hleaves⟩

end Scanner

end Lisplet
