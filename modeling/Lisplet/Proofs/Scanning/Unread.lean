import Lisplet.Proofs.Scanning.Requests

/-!
# Text that has not been read

No token depends on text that the scanner has not read when it yields the token. The scanner does
look at the character behind a minus sign, and it needs to see what ends a number or a symbol, but
whatever it has looked at it has also read by then, unless the text has ended. So as long as some
text is left, other text can stand in its place without a change to any token before it.
-/

namespace Lisplet.Scanner

variable {s : Scanner} {t : Token}

/-- The same scanner with other text left to read. -/
def leaving (s : Scanner) (more : List Char) : Scanner := { s with rest := more }

/-- A request, given the text to read, that comes to a token by reading the characters in front of
what a scanner has left. It comes to the same token whatever stands behind these characters, and
then that is what is left. -/
def ReadsUpTo (request : List Char → Reading (Option Token)) (text : List Char) (t : Token)
    (s : Scanner) : Prop :=
  ∃ raw, raw ≠ [] ∧ text = raw ++ s.rest ∧
    ∀ more, request (raw ++ more) = ⟨.ok (some t), s.leaving more⟩

/-- A request that yields a token at the first character reads that character alone. -/
theorem readsUpTo_first {request : List Char → Reading (Option Token)} {c : Char}
    {rest : List Char} (hrest : s.rest = rest)
    (h : ∀ more, request (c :: more) = ⟨.ok (some t), s.leaving more⟩) :
    ReadsUpTo request (c :: rest) t s :=
  ⟨[c], List.cons_ne_nil _ _, by rw [hrest, List.singleton_append], h⟩

/-- A request that goes on behind the first character reads that character as well. How it goes on
may depend on the character behind the first, since that is read too. -/
theorem ReadsUpTo.cons {request request' : List Char → Reading (Option Token)} {c : Char}
    {rest : List Char} (h : ReadsUpTo request' rest t s)
    (hstep : ∀ more, more.head? = rest.head? → request (c :: more) = request' more) :
    ReadsUpTo request (c :: rest) t s := by
  obtain ⟨raw, hne, rfl, hsame⟩ := h
  refine ⟨c :: raw, List.cons_ne_nil _ _, rfl, fun more => ?_⟩
  rw [List.cons_append, hstep, hsame]
  rw [List.head?_append_of_ne_nil _ hne, List.head?_append_of_ne_nil _ hne]

/-- At the end of the text nothing is left. -/
theorem rest_scan_nil (state : ScanState) (buffer : List Char) (start here : Position) :
    (scan state buffer start here []).scanner.rest = [] := by
  cases state with
  | number => simp only [scan]; split <;> rfl
  | symbol => simp only [scan]; split <;> rfl
  | _ => rfl

/-- Behind the character that ends an atom the text is left as it was. -/
theorem leaving_afterAtom (c : Char) (here : Position) (rest more : List Char) :
    (afterAtom c here rest).leaving more = afterAtom c here more := by
  unfold afterAtom leaving
  split <;> rfl

/-- What is left behind the character that ends an atom is the text behind it. -/
theorem rest_afterAtom (c : Char) (here : Position) (rest : List Char) :
    (afterAtom c here rest).rest = rest := by
  unfold afterAtom
  split <;> rfl

/-- Whether a number starts at a character depends on the character behind it at most. -/
theorem startsNumber_congr (c : Char) {rest more : List Char} (h : more.head? = rest.head?) :
    startsNumber c more = startsNumber c rest := by
  rw [startsNumber, startsNumber, h]

/-- Scanning that comes to a token with some text left has read what is in front of that text and
nothing more. -/
theorem readsUpTo_scan {state : ScanState} {buffer text : List Char} {start here : Position}
    (h : scan state buffer start here text = ⟨.ok (some t), s⟩) (hleft : s.rest ≠ []) :
    ReadsUpTo (scan state buffer start here) text t s := by
  induction text generalizing state buffer start here with
  | nil =>
    refine absurd ?_ hleft
    have hrest := rest_scan_nil state buffer start here
    rwa [h] at hrest
  | cons c rest ih =>
    -- a character is either the last that is read, or scanning goes on behind it
    cases state with
    | base =>
      simp only [scan] at h
      split at h
      · next hblank => exact (ih h).cons fun more _ => by simp only [scan, if_pos hblank]
      split at h
      · next hblank hopen =>
        cases h
        refine readsUpTo_first rfl fun more => ?_
        simp only [scan, if_neg hblank, if_pos hopen, leaving]
      split at h
      · next hblank hopen hclose =>
        cases h
        refine readsUpTo_first rfl fun more => ?_
        simp only [scan, if_neg hblank, if_neg hopen, if_pos hclose, leaving]
      split at h
      · next hblank hopen hclose hquote =>
        refine (ih h).cons fun more _ => ?_
        simp only [scan, if_neg hblank, if_neg hopen, if_neg hclose, if_pos hquote]
      split at h
      · next hblank hopen hclose hquote hnumber =>
        refine (ih h).cons fun more hhead => ?_
        rw [← startsNumber_congr c hhead] at hnumber
        simp only [scan, if_neg hblank, if_neg hopen, if_neg hclose, if_neg hquote, if_pos hnumber]
      · next hblank hopen hclose hquote hnumber =>
        refine (ih h).cons fun more hhead => ?_
        rw [← startsNumber_congr c hhead] at hnumber
        simp only [scan, if_neg hblank, if_neg hopen, if_neg hclose, if_neg hquote, if_neg hnumber]
    | text =>
      simp only [scan] at h
      split at h
      · next hslash => exact (ih h).cons fun more _ => by simp only [scan, if_pos hslash]
      split at h
      · next hslash hquote =>
        cases h
        refine readsUpTo_first rfl fun more => ?_
        simp only [scan, if_neg hslash, if_pos hquote, leaving]
      · next hslash hquote =>
        exact (ih h).cons fun more _ => by simp only [scan, if_neg hslash, if_neg hquote]
    | escape => exact (ih h).cons fun more _ => rfl
    | number =>
      simp only [scan] at h
      split at h
      · next hchar => exact (ih h).cons fun more _ => by simp only [scan, if_pos hchar]
      split at h
      · next hchar hends =>
        split at h
        · next lexeme hatom =>
          cases h
          refine readsUpTo_first (rest_afterAtom c here rest) fun more => ?_
          simp only [scan, if_neg hchar, if_pos hends, hatom, leaving_afterAtom]
        · cases h
      · cases h
    | symbol =>
      simp only [scan] at h
      split at h
      · next hends =>
        cases h
        refine readsUpTo_first (rest_afterAtom c here rest) fun more => ?_
        simp only [scan, if_pos hends, leaving_afterAtom]
      · next hends => exact (ih h).cons fun more _ => by simp only [scan, if_neg hends]

/-- A request that comes to a token with some text left comes to it whatever text is left. -/
theorem exists_raw_of_next (h : s.next.outcome = .ok (some t)) (hleft : s.next.scanner.rest ≠ []) :
    ∃ raw, s.rest = raw ++ s.next.scanner.rest ∧ ∀ more,
      (s.leaving (raw ++ more)).next = ⟨.ok (some t), s.next.scanner.leaving more⟩ := by
  obtain ⟨rest, position, pending⟩ := s
  cases pending with
  | some kept =>
    cases h
    exact ⟨[], rfl, fun more => rfl⟩
  | none =>
    change (scan .base [] position position rest).outcome = _ at h
    change (scan .base [] position position rest).scanner.rest ≠ [] at hleft
    have hscan : scan .base [] position position rest =
        ⟨.ok (some t), (scan .base [] position position rest).scanner⟩ := by rw [← h]
    obtain ⟨raw, -, hrest, hsame⟩ := readsUpTo_scan hscan hleft
    exact ⟨raw, hrest, hsame⟩

/-- Requests that come to tokens one after the other with some text left come to them whatever text
is left. -/
theorem exists_raw_of_outcomes {count : ℕ}
    (h : ∀ outcome ∈ s.outcomes count, ∃ t, outcome = .ok (some t))
    (hleft : (s.after count).rest ≠ []) :
    ∃ raw, s.rest = raw ++ (s.after count).rest ∧ ∀ more,
      (s.leaving (raw ++ more)).outcomes count = s.outcomes count ∧
      (s.leaving (raw ++ more)).after count = (s.after count).leaving more := by
  induction count generalizing s with
  | zero => exact ⟨[], rfl, fun more => ⟨rfl, rfl⟩⟩
  | succ count ih =>
    rw [outcomes, List.forall_mem_cons] at h
    obtain ⟨⟨t, hfirst⟩, hothers⟩ := h
    obtain ⟨later, hlater, hsame⟩ := ih hothers hleft
    have hnext : s.next.scanner.rest ≠ [] := by
      rw [hlater]
      exact List.append_ne_nil_of_right_ne_nil later hleft
    obtain ⟨raw, hraw, htoken⟩ := exists_raw_of_next hfirst hnext
    refine ⟨raw ++ later, ?_, fun more => ?_⟩
    · rw [hraw, hlater, List.append_assoc, after]
    · obtain ⟨houtcomes, hafter⟩ := hsame more
      rw [outcomes, outcomes, after, List.append_assoc, htoken, hfirst]
      exact ⟨congrArg _ houtcomes, hafter⟩

/-- The scanner is lazy: the tokens that a number of requests come to, the place that is reached and
the token that is kept there depend on the text before that place alone, as long as the text does
not end there. -/
theorem outcomes_eq_of_take_eq {text other : String} {count : ℕ}
    (htokens : ∀ outcome ∈ (ofText text).outcomes count, ∃ t, outcome = .ok (some t))
    (hunread : ((ofText text).after count).position.offset < text.length)
    (hsame : other.toList.take ((ofText text).after count).position.offset =
      text.toList.take ((ofText text).after count).position.offset) :
    (ofText other).outcomes count = (ofText text).outcomes count ∧
      ((ofText other).after count).position = ((ofText text).after count).position ∧
      ((ofText other).after count).pending = ((ofText text).after count).pending := by
  have hstands := (standsAt_self text.toList {}).after count
  have hplace := hstands.standsIn ((Cursor.standsIn_ofText text).after count)
  have hdrop : text.toList.drop ((ofText text).after count).position.offset =
      ((ofText text).after count).rest := hplace.drop_offset
  have hleft : ((ofText text).after count).rest ≠ [] := by
    rw [← hdrop, ne_eq, List.drop_eq_nil_iff, String.length_toList]
    omega
  obtain ⟨raw, hraw, hread⟩ := exists_raw_of_outcomes htokens hleft
  -- what has been read is the text before the place that has been reached
  have htake : text.toList.take ((ofText text).after count).position.offset = raw := by
    have hsplit := List.take_append_drop ((ofText text).after count).position.offset text.toList
    rw [hdrop] at hsplit
    exact List.append_cancel_right (hsplit.trans hraw)
  have hother : ofText other = (ofText text).leaving
      (raw ++ other.toList.drop ((ofText text).after count).position.offset) := by
    rw [← htake, ← hsame, List.take_append_drop]
    rfl
  rw [hother]
  obtain ⟨houtcomes, hafter⟩ :=
    hread (other.toList.drop ((ofText text).after count).position.offset)
  rw [houtcomes, hafter]
  exact ⟨rfl, rfl, rfl⟩

/-- Behind a lone minus sign that a parenthesis ends, another text can go on with a digit and an
open literal: the parenthesis is kept all the same. -/
theorem outcomes_eq_of_take_eq_kept :
    (∀ outcome ∈ (ofText "(f -) x").outcomes 3, ∃ t, outcome = .ok (some t)) ∧
      ((ofText "(f -) x").after 3).position = ⟨5, 0, 5⟩ ∧ 5 < "(f -) x".length ∧
      "(f -)9\"".toList.take 5 = "(f -) x".toList.take 5 ∧
      (ofText "(f -)9\"").outcomes 3 = [.ok (some ⟨.openParen, ⟨0, 0, 0⟩, 1⟩),
        .ok (some ⟨.symbol "f", ⟨1, 0, 1⟩, 1⟩), .ok (some ⟨.symbol "-", ⟨3, 0, 3⟩, 1⟩)] ∧
      ((ofText "(f -)9\"").after 3).pending = some ⟨.closeParen, ⟨4, 0, 4⟩, 1⟩ := by
  have houtcomes : (ofText "(f -) x").outcomes 3 = [.ok (some ⟨.openParen, ⟨0, 0, 0⟩, 1⟩),
      .ok (some ⟨.symbol "f", ⟨1, 0, 1⟩, 1⟩), .ok (some ⟨.symbol "-", ⟨3, 0, 3⟩, 1⟩)] := by
    decide +kernel
  have hposition : ((ofText "(f -) x").after 3).position = ⟨5, 0, 5⟩ := by decide +kernel
  have htokens : ∀ outcome ∈ (ofText "(f -) x").outcomes 3, ∃ t, outcome = .ok (some t) := by
    simp [houtcomes]
  have hunread : 5 < "(f -) x".length := by decide
  have hsame : "(f -)9\"".toList.take 5 = "(f -) x".toList.take 5 := by decide
  have hthere : ((ofText "(f -) x").after 3).position.offset < "(f -) x".length := by
    rwa [hposition]
  have hbefore : "(f -)9\"".toList.take ((ofText "(f -) x").after 3).position.offset =
      "(f -) x".toList.take ((ofText "(f -) x").after 3).position.offset := by
    rwa [hposition]
  obtain ⟨houtcomes', -, hpending⟩ := outcomes_eq_of_take_eq htokens hthere hbefore
  refine ⟨htokens, hposition, hunread, hsame, houtcomes'.trans houtcomes, hpending.trans ?_⟩
  decide +kernel

end Lisplet.Scanner
