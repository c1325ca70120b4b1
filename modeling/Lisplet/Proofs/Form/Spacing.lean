import Lisplet.Proofs.Form.Progress
import Lisplet.Proofs.Scanning.Concatenation
import Lisplet.Proofs.Scanning.Spacing

/-!
# Blanks between the tokens of forms

Reading forms asks for nothing of a token but its lexeme, and of its place only to say where an
error is. So two texts with the same lexemes read as the same forms or fail with the same fault,
and the blanks between the tokens of a text can be any that keep them apart.
-/

namespace Lisplet

/-- Scanners that find tokens with the same lexemes, one after the other up to the end of their
texts. -/
inductive Scanner.Alike : Scanner → Scanner → Prop
  | done {s s' : Scanner} (left : s.next.outcome = .ok none) (right : s'.next.outcome = .ok none) :
      Alike s s'
  | token {s s' : Scanner} {t t' : Token} (left : s.next.outcome = .ok (some t))
      (right : s'.next.outcome = .ok (some t')) (lexeme : t'.lexeme = t.lexeme)
      (rest : s.next.scanner.Alike s'.next.scanner) : Alike s s'

/-- Outcomes that are the same but for where an error is, with scanners that are alike where there
is no error. -/
inductive Reading.Alike {α : Type} : Reading α → Reading α → Prop
  | ok {a : α} {s s' : Scanner} (scanners : s.Alike s') : Alike ⟨.ok a, s⟩ ⟨.ok a, s'⟩
  | error {e e' : SyntaxError} {s s' : Scanner} (fault : e'.fault = e.fault) :
      Alike ⟨.error e, s⟩ ⟨.error e', s'⟩

/-- A scanner that finds no error finds no token at all or a first one, and no error behind it. -/
theorem Scanner.drain_cases {s : Scanner} (h : s.drain.2.1 = none) :
    (s.next.outcome = .ok none ∧ s.drain.1 = []) ∨
      ∃ t, s.next.outcome = .ok (some t) ∧ s.drain.1 = t :: s.next.scanner.drain.1 ∧
        s.next.scanner.drain.2.1 = none := by
  rw [drain] at h ⊢
  split at h <;> simp_all

/-- Scanners that find no error and the same lexemes are alike. -/
theorem Scanner.alike_of_drain {s s' : Scanner} (h : s.drain.2.1 = none)
    (h' : s'.drain.2.1 = none)
    (hlexemes : s'.drain.1.map Token.lexeme = s.drain.1.map Token.lexeme) : s.Alike s' := by
  generalize htokens : s.drain.1 = tokens at hlexemes
  induction tokens generalizing s s' with
  | nil =>
    rw [List.map_nil, List.map_eq_nil_iff] at hlexemes
    obtain ⟨hnone, -⟩ | ⟨t, -, hcons, -⟩ := drain_cases h
    · obtain ⟨hnone', -⟩ | ⟨t', -, hcons', -⟩ := drain_cases h'
      · exact .done hnone hnone'
      · cases hlexemes.symm.trans hcons'
    · cases htokens.symm.trans hcons
  | cons t rest ih =>
    rw [List.map_cons] at hlexemes
    obtain ⟨-, hnil⟩ | ⟨found, hfound, hcons, hend⟩ := drain_cases h
    · cases htokens.symm.trans hnil
    · obtain ⟨rfl, hrest⟩ := List.cons.inj (hcons.symm.trans htokens)
      obtain ⟨-, hnil'⟩ | ⟨found', hfound', hcons', hend'⟩ := drain_cases h'
      · rw [hnil'] at hlexemes
        cases hlexemes
      · rw [hcons', List.map_cons, List.cons.injEq] at hlexemes
        exact .token hfound hfound' hlexemes.1 (ih hend hend' hrest hlexemes.2)

namespace Form

variable {s s' : Scanner}

/-- The items of a list are read alike by scanners that are alike. -/
theorem readItems_alike (h : s.Alike s') (limit depth : Int) (waiting : List (List Value))
    (items : List Value) :
    (readItems limit depth waiting items s).Alike (readItems limit depth waiting items s') := by
  induction h generalizing depth waiting items with
  | done left right =>
    rw [readItems_of_none left, readItems_of_none right]
    exact .error rfl
  | @token s s' t t' left right lexeme rest ih =>
    rw [readItems_of_token left, readItems_of_token right, lexeme]
    cases t.lexeme with
    | closeParen =>
      cases waiting with
      | nil => exact .ok rest
      | cons outer more => exact ih _ _ _
    | openParen =>
      dsimp only
      split
      · exact .error rfl
      · exact ih _ _ _
    | text content => exact ih _ _ _
    | symbol name => exact ih _ _ _
    | number x => exact ih _ _ _

/-- Whether nothing follows a form is told alike. -/
theorem alone_alike {r r' : Reading (List Value)} (h : r.Alike r') :
    (alone r').outcome.mapError SyntaxError.fault =
      (alone r).outcome.mapError SyntaxError.fault := by
  cases h with
  | ok scanners =>
    cases scanners with
    | done left right => simp [alone, left, right]
    | token left right lexeme rest =>
      simp [alone, left, right, Except.mapError, SyntaxError.atToken]
  | error fault => simp [alone, Except.mapError, fault]

/-- The only form is read alike by scanners that are alike. -/
theorem only_alike (h : s.Alike s') (limit : Int) :
    (only limit s').outcome.mapError SyntaxError.fault =
      (only limit s).outcome.mapError SyntaxError.fault := by
  cases h with
  | done left right => simp [only, left, right, expect, Except.mapError, SyntaxError.atPosition]
  | @token _ _ t t' left right lexeme rest =>
    have hkind : t'.kind = t.kind := congrArg Lexeme.kind lexeme
    by_cases hopen : t.kind = .openParen
    · have hread := alone_alike (readItems_alike rest limit 1 [] [])
      simpa [only, left, right, expect, hkind, hopen, readList] using hread
    · simp [only, left, right, expect, hkind, hopen, Except.mapError, SyntaxError.atToken]

/-- All forms are read alike by scanners that are alike. -/
theorem drain_alike (h : s.Alike s') (limit : Int) :
    (drain limit s').1 = (drain limit s).1 ∧
      (drain limit s').2.map SyntaxError.fault = (drain limit s).2.map SyntaxError.fault := by
  -- the scanners behind a form come from reading its items, so the induction is not on what makes
  -- those in front of it alike but on how much is left
  induction hremaining : s.remaining using Nat.strong_induction_on generalizing s s' with
  | _ remaining ih =>
    cases h with
    | done left right => simp [drain_of_none left, drain_of_none right]
    | @token _ _ t t' left right lexeme rest =>
      have hkind : t'.kind = t.kind := congrArg Lexeme.kind lexeme
      by_cases hopen : t.kind = .openParen
      · rw [drain_of_openParen left hopen, drain_of_openParen right (hkind.trans hopen)]
        have hless := remaining_readItems_le limit 1 [] [] s.next.scanner
        have hbehind := Scanner.remaining_next_lt left
        have hread := readItems_alike rest limit 1 [] []
        generalize readItems limit 1 [] [] s.next.scanner = r at hread hless
        generalize readItems limit 1 [] [] s'.next.scanner = r' at hread
        cases hread with
        | @ok form after after' scanners =>
          have hshorter : after.remaining < remaining :=
            hremaining ▸ Nat.lt_of_le_of_lt hless hbehind
          obtain ⟨hforms, herror⟩ := ih after.remaining hshorter scanners rfl
          exact ⟨congrArg (form :: ·) hforms, herror⟩
        | error fault => simp [fault]
      · rw [drain_of_other left hopen, drain_of_other right (hkind ▸ hopen)]
        simp [SyntaxError.atToken, hkind]

/-- Reading all forms of texts with the same lexemes comes to the same but for where an error is. -/
theorem parseAll_alike {text text' : String}
    (h : (Scanner.ofText text).Alike (Scanner.ofText text')) (limit : Int) :
    (parseAll limit text').mapError SyntaxError.fault =
      (parseAll limit text).mapError SyntaxError.fault := by
  obtain ⟨hforms, herror⟩ := drain_alike h limit
  unfold parseAll
  generalize drain limit (.ofText text) = r at hforms herror
  generalize drain limit (.ofText text') = r' at hforms herror
  obtain ⟨forms, error⟩ := r
  obtain ⟨forms', error'⟩ := r'
  cases error <;> cases error' <;> simp_all [Except.mapError]

/-- A text that scans, with other blanks between its tokens: these are the same tokens again exactly
when the blanks keep them apart, and then both ways of reading the text come to the same forms or to
the same fault as before. -/
theorem parse_spaced {text : String} (hscans : (Scanner.ofText text).drain.2.1 = none)
    (blanks : ℕ → List Char) (hblank : ∀ i ≤ (Scanner.ofText text).drain.1.length,
      ∀ c ∈ blanks i, Text.isBlank c = true) :
    let tokens := (Scanner.ofText text).drain.1
    let other := String.ofList (spaced (Token.raw text.toList) blanks tokens)
    (Separates blanks tokens ↔ (Scanner.ofText other).drain.2.1 = none ∧
      (Scanner.ofText other).drain.1.map Token.unplaced = tokens.map Token.unplaced) ∧
    (Separates blanks tokens → ∀ limit,
      (parse limit other).mapError SyntaxError.fault =
        (parse limit text).mapError SyntaxError.fault ∧
      (parseAll limit other).mapError SyntaxError.fault =
        (parseAll limit text).mapError SyntaxError.fault) := by
  intro tokens other
  have hmade : ∀ t ∈ tokens, t.IsMadeOf (t.raw text.toList) :=
    (Scanner.yields_of_drain hscans).isMadeOf (Cursor.standsIn_ofText text)
  have hother := Cursor.yields_drain_ofText other
  rw [Cursor.ofText, String.toList_ofList] at hother
  have hagain : Separates blanks tokens → (Scanner.ofText other).drain.2.1 = none ∧
      (Scanner.ofText other).drain.1.map Token.unplaced = tokens.map Token.unplaced := by
    intro hseparates
    obtain ⟨found, there, hfound, hsame⟩ :=
      Cursor.exists_yields_spaced hblank hmade hseparates {}
    obtain ⟨htokens, hending⟩ := hother.unique hfound
    cases herror : (Scanner.ofText other).drain.2.1 with
    | none => exact ⟨rfl, by rw [htokens, hsame]⟩
    | some e => simp [herror, Cursor.endingOf] at hending
  refine ⟨⟨hagain, fun h => Cursor.separates_of_yields hblank hmade hother h.2⟩, ?_⟩
  intro hseparates limit
  obtain ⟨hends, hsame⟩ := hagain hseparates
  have hlexemes := congrArg (List.map Prod.fst) hsame
  rw [List.map_map, List.map_map] at hlexemes
  have halike := Scanner.alike_of_drain hscans hends hlexemes
  exact ⟨only_alike halike limit, parseAll_alike halike limit⟩

/-- Nothing but the blank between a symbol that holds a parenthesis and the text behind it is needed
here: none is between the texts, nor around the number and the lone minus sign. -/
theorem parse_spaced_closely :
    let tokens := (Scanner.ofText "(f-( \"q\" (\"a\" \"b\" -1 ) - )").drain.1
    Separates (fun i => if i = 2 then ['\n'] else []) tokens ∧ ¬ Separates (fun _ => []) tokens ∧
      (parse 2 "(f-(\n\"q\"(\"a\"\"b\"-1)-)").mapError SyntaxError.fault =
        (parse 2 "(f-( \"q\" (\"a\" \"b\" -1 ) - )").mapError SyntaxError.fault := by
  have hscans : (Scanner.ofText "(f-( \"q\" (\"a\" \"b\" -1 ) - )").drain.2.1 = none := by
    decide +kernel
  obtain ⟨hkept, hsame⟩ := parse_spaced hscans (fun i => if i = 2 then ['\n'] else [])
    fun i _ c hc => by
      split at hc
      · rw [List.mem_singleton.mp hc]
        rfl
      · cases hc
  obtain ⟨hlost, -⟩ := parse_spaced hscans (fun _ => []) fun _ _ c hc => by cases hc
  have hseparates := hkept.mpr (by decide +kernel)
  refine ⟨hseparates, fun h => absurd (hlost.mp h) (by decide +kernel), ?_⟩
  have hother : String.ofList (spaced (Token.raw "(f-( \"q\" (\"a\" \"b\" -1 ) - )".toList)
      (fun i => if i = 2 then ['\n'] else [])
      (Scanner.ofText "(f-( \"q\" (\"a\" \"b\" -1 ) - )").drain.1) =
      "(f-(\n\"q\"(\"a\"\"b\"-1)-)" := by
    decide +kernel
  rw [← hother]
  exact (hsame hseparates 2).1

end Form

end Lisplet
