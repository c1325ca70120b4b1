import Lisplet.Form
import Lisplet.Proofs.Scanning.Tokens

/-!
# Reading forms token by token

Reading forms as a machine that is fed one token after the other. Its state holds the finished
forms and the lists that are still open; the number of open lists is all that decides whether a
token is accepted. The reader of forms, which asks the scanner for tokens as it goes, comes to the
same forms and the same error as the machine does on the tokens of the text.
-/

namespace Lisplet.Form

/-- How far reading has come: the finished forms and the items so far of the lists still open,
the innermost list first, each in reverse order. -/
structure Progress where
  finished : List (List Value) := []
  opened : List (List Value) := []

namespace Progress

/-- The progress when the innermost open list, with these items, is closed. -/
def close (p : Progress) (items : List Value) : List (List Value) → Progress
  | [] => ⟨inOrder items :: p.finished, []⟩
  | outer :: more => ⟨p.finished, (.list (inOrder items) :: outer) :: more⟩

/-- The progress after one more token, if it is accepted. Outside all lists only an opening
parenthesis is, and a list is opened only below the nesting limit. -/
def feed (limit : Int) (p : Progress) (t : Token) : Except SyntaxError Progress :=
  match p.opened with
  | [] =>
    if t.kind = .openParen then .ok ⟨p.finished, [[]]⟩
    else .error (.atToken (.expected .openParen (some t.kind)) t)
  | items :: waiting =>
    match t.lexeme with
    | .openParen =>
      if limit ≤ waiting.length + 1 then .error (.atToken .nestedTooDeeply t)
      else .ok ⟨p.finished, [] :: items :: waiting⟩
    | .closeParen => .ok (p.close items waiting)
    | lexeme => .ok ⟨p.finished, (lexeme.value :: items) :: waiting⟩

/-- The finished forms, and the error that the end of the tokens makes: a lexical error, or an
open list at the end of the text. -/
def finish (p : Progress) : Except SyntaxError Position → List (List Value) × Option SyntaxError
  | .error e => (p.finished.reverse, some e)
  | .ok here =>
    (p.finished.reverse, if p.opened.isEmpty then none else some (.atPosition .unclosed here))

/-- The forms and the error that feeding tokens up to their end comes to. -/
def run (limit : Int) (ending : Except SyntaxError Position) (p : Progress) :
    List Token → List (List Value) × Option SyntaxError
  | [] => p.finish ending
  | t :: tokens =>
    match p.feed limit t with
    | .error e => (p.finished.reverse, some e)
    | .ok q => run limit ending q tokens

/-- What reading comes to when a list has been read after some forms: its error, or the form it
makes and the forms behind it. -/
def followed (limit : Int) (finished : List (List Value)) (r : Reading (List Value)) :
    List (List Value) × Option SyntaxError :=
  match r.outcome with
  | .error e => (finished.reverse, some e)
  | .ok form => (finished.reverse ++ form :: (drain limit r.scanner).1, (drain limit r.scanner).2)

/-- What the reader of forms comes to when it goes on from a scanner with this progress. -/
def resume (limit : Int) (s : Scanner) : Progress → List (List Value) × Option SyntaxError
  | ⟨finished, []⟩ => (finished.reverse ++ (drain limit s).1, (drain limit s).2)
  | ⟨finished, items :: waiting⟩ =>
    followed limit finished (readItems limit (waiting.length + 1) waiting items s)

end Progress

/-- The items of a list end where the scanner fails. -/
theorem readItems_of_error {s : Scanner} {e : SyntaxError} (h : s.next.outcome = .error e)
    (limit depth : Int) (waiting : List (List Value)) (items : List Value) :
    readItems limit depth waiting items s = ⟨.error e, s.next.scanner⟩ := by
  unfold readItems
  split <;> simp_all

/-- The items of a list cannot go on at the end of the text. -/
theorem readItems_of_none {s : Scanner} (h : s.next.outcome = .ok none)
    (limit depth : Int) (waiting : List (List Value)) (items : List Value) :
    readItems limit depth waiting items s =
      ⟨.error (.atPosition .unclosed s.next.scanner.position), s.next.scanner⟩ := by
  unfold readItems
  split <;> simp_all

/-- The items of a list go on with the token that the scanner finds. -/
theorem readItems_of_token {s : Scanner} {t : Token} (h : s.next.outcome = .ok (some t))
    (limit depth : Int) (waiting : List (List Value)) (items : List Value) :
    readItems limit depth waiting items s =
      match t.lexeme with
      | .closeParen =>
        match waiting with
        | [] => ⟨.ok (inOrder items), s.next.scanner⟩
        | outer :: more =>
          readItems limit (depth - 1) more (.list (inOrder items) :: outer) s.next.scanner
      | .openParen =>
        if limit ≤ depth then ⟨.error (.atToken .nestedTooDeeply t), s.next.scanner⟩
        else readItems limit (depth + 1) (items :: waiting) [] s.next.scanner
      | lexeme => readItems limit depth waiting (lexeme.value :: items) s.next.scanner := by
  conv_lhs => unfold readItems
  split
  · simp_all
  · simp_all
  · next found hfound =>
    obtain rfl : found = t := by simpa [h] using hfound.symm
    rfl

/-- The forms of a text, one at a time. -/
theorem drain_eq (limit : Int) (s : Scanner) : drain limit s =
    match (next limit s).outcome with
    | .error e => ([], some e)
    | .ok none => ([], none)
    | .ok (some form) => (form :: (drain limit (next limit s).scanner).1,
        (drain limit (next limit s).scanner).2) := by
  rw [drain]
  split <;> simp_all

/-- Behind an opening parenthesis the next form is the list that it opens. -/
theorem next_of_openParen {s : Scanner} {t : Token} (h : s.next.outcome = .ok (some t))
    (hkind : t.kind = .openParen) (limit : Int) :
    next limit s = ⟨(readItems limit 1 [] [] s.next.scanner).outcome.map some,
      (readItems limit 1 [] [] s.next.scanner).scanner⟩ := by
  simp [next, h, expect, hkind, readList]

/-- There are no more forms where the scanner fails. -/
theorem drain_of_error {s : Scanner} {e : SyntaxError} (h : s.next.outcome = .error e)
    (limit : Int) : drain limit s = ([], some e) := by
  have hnext : (next limit s).outcome = .error e := by simp [next, h]
  rw [drain]
  split <;> simp_all

/-- There are no more forms at the end of the text. -/
theorem drain_of_none {s : Scanner} (h : s.next.outcome = .ok none) (limit : Int) :
    drain limit s = ([], none) := by
  have hnext : (next limit s).outcome = .ok none := by simp [next, h]
  rw [drain]
  split <;> simp_all

/-- A token that opens no list is no form. -/
theorem drain_of_other {s : Scanner} {t : Token} (h : s.next.outcome = .ok (some t))
    (hkind : t.kind ≠ .openParen) (limit : Int) :
    drain limit s = ([], some (.atToken (.expected .openParen (some t.kind)) t)) := by
  have hnext : (next limit s).outcome =
      .error (.atToken (.expected .openParen (some t.kind)) t) := by
    simp [next, h, expect, hkind]
  rw [drain]
  split <;> simp_all

/-- A form is the list that an opening parenthesis opens, and the forms after it follow. -/
theorem drain_of_openParen {s : Scanner} {t : Token} (h : s.next.outcome = .ok (some t))
    (hkind : t.kind = .openParen) (limit : Int) :
    drain limit s =
      match (readItems limit 1 [] [] s.next.scanner).outcome with
      | .error e => ([], some e)
      | .ok form =>
        (form :: (drain limit (readItems limit 1 [] [] s.next.scanner).scanner).1,
          (drain limit (readItems limit 1 [] [] s.next.scanner).scanner).2) := by
  rw [drain_eq, next_of_openParen h hkind]
  cases (readItems limit 1 [] [] s.next.scanner).outcome with
  | error e => rfl
  | ok form => rfl

namespace Progress

/-- The reader stops where the scanner fails. -/
theorem resume_of_error {s : Scanner} {e : SyntaxError} (h : s.next.outcome = .error e)
    (limit : Int) (p : Progress) : p.resume limit s = p.finish (.error e) := by
  obtain ⟨finished, opened⟩ := p
  cases opened with
  | nil => simp [resume, finish, drain_of_error h]
  | cons items waiting => simp [resume, followed, finish, readItems_of_error h]

/-- The reader stops at the end of the text. -/
theorem resume_of_none {s : Scanner} (h : s.next.outcome = .ok none) (limit : Int)
    (p : Progress) : p.resume limit s = p.finish (.ok s.next.scanner.position) := by
  obtain ⟨finished, opened⟩ := p
  cases opened with
  | nil => simp [resume, finish, drain_of_none h]
  | cons items waiting => simp [resume, followed, finish, readItems_of_none h]

/-- The forms behind an opening parenthesis are those behind its list. -/
theorem resume_openParen {s : Scanner} {t : Token} (h : s.next.outcome = .ok (some t))
    (hkind : t.kind = .openParen) (limit : Int) (finished : List (List Value)) :
    resume limit s ⟨finished, []⟩ = resume limit s.next.scanner ⟨finished, [[]]⟩ := by
  have hlength : (([] : List (List Value)).length : Int) + 1 = 1 := rfl
  simp only [resume, followed, drain_of_openParen h hkind, hlength]
  cases (readItems limit 1 [] [] s.next.scanner).outcome with
  | error e => simp
  | ok form => rfl

/-- The reader takes a token as the machine does. -/
theorem resume_of_token {s : Scanner} {t : Token} (h : s.next.outcome = .ok (some t))
    (limit : Int) (p : Progress) :
    p.resume limit s =
      match p.feed limit t with
      | .error e => (p.finished.reverse, some e)
      | .ok q => q.resume limit s.next.scanner := by
  obtain ⟨finished, opened⟩ := p
  cases opened with
  | nil =>
    by_cases hkind : t.kind = .openParen
    · simp only [feed, hkind, if_true, resume_openParen h hkind]
    · simp [resume, feed, hkind, drain_of_other h hkind]
  | cons items waiting =>
    simp only [resume, readItems_of_token h, feed]
    cases t.lexeme with
    | closeParen =>
      cases waiting with
      | nil => simp [close, followed]
      | cons outer more => simp [close]
    | openParen =>
      by_cases hlimit : limit ≤ (waiting.length : Int) + 1
      · simp [hlimit, followed]
      · simp [hlimit]
    | text s => rfl
    | symbol name => rfl
    | number x => rfl

/-- The reader that goes on from a scanner comes to what the machine does on the tokens that are
left. -/
theorem resume_eq_run {s : Scanner} {c : Cursor} (hstands : s.StandsAt c) {tokens : List Token}
    {ending : Except SyntaxError Position} (hyields : c.Yields tokens ending) (limit : Int)
    (p : Progress) : p.resume limit s = p.run limit ending tokens := by
  induction hyields generalizing s p with
  | @done c q h =>
    have hagrees := Scanner.next_agrees hstands
    rw [Scanner.Agrees, h] at hagrees
    rw [run, resume_of_none hagrees.1,
      Scanner.position_eq_of_standsAt hagrees.2 (Cursor.next_eq_none h).2]
  | @failed c q e h =>
    have hagrees := Scanner.next_agrees hstands
    rw [Scanner.Agrees, h] at hagrees
    rw [run, resume_of_error hagrees.1]
  | @token c q t tokens ending h rest ih =>
    have hagrees := Scanner.next_agrees hstands
    rw [Scanner.Agrees, h] at hagrees
    rw [run, resume_of_token hagrees.1]
    cases p.feed limit t with
    | error e => rfl
    | ok p' => exact ih hagrees.2 p'

/-- Tokens that are all accepted lead to the progress from which the others are fed. -/
theorem run_append_of_ok {limit : Int} {p q : Progress} {tokens : List Token}
    (h : tokens.foldlM (feed limit) p = .ok q) (ending : Except SyntaxError Position)
    (others : List Token) : p.run limit ending (tokens ++ others) = q.run limit ending others := by
  induction tokens generalizing p with
  | nil =>
    cases h
    rfl
  | cons t rest ih =>
    rw [List.foldlM_cons] at h
    cases hfeed : p.feed limit t with
    | error e =>
      rw [hfeed] at h
      cases h
    | ok p' =>
      rw [hfeed] at h
      rw [List.cons_append, run, hfeed]
      exact ih h

/-- Tokens that are all accepted come to what their end makes of the progress they lead to. -/
theorem run_of_ok {limit : Int} {p q : Progress} {tokens : List Token}
    (h : tokens.foldlM (feed limit) p = .ok q) (ending : Except SyntaxError Position) :
    p.run limit ending tokens = q.finish ending := by
  have hrun := run_append_of_ok h ending []
  rwa [List.append_nil] at hrun

/-- Tokens of which one is not accepted lead to its error whatever follows. -/
theorem run_append_of_error {limit : Int} {p : Progress} {tokens : List Token} {e : SyntaxError}
    (h : tokens.foldlM (feed limit) p = .error e) (ending : Except SyntaxError Position)
    (others : List Token) : (p.run limit ending (tokens ++ others)).2 = some e := by
  induction tokens generalizing p with
  | nil => cases h
  | cons t rest ih =>
    rw [List.foldlM_cons] at h
    cases hfeed : p.feed limit t with
    | error e' =>
      rw [hfeed] at h
      cases h
      rw [List.cons_append, run, hfeed]
    | ok p' =>
      rw [hfeed] at h
      rw [List.cons_append, run, hfeed]
      exact ih h

/-- Tokens of which one is not accepted come to its error however they end. -/
theorem run_of_error {limit : Int} {p : Progress} {tokens : List Token} {e : SyntaxError}
    (h : tokens.foldlM (feed limit) p = .error e) (ending : Except SyntaxError Position) :
    (p.run limit ending tokens).2 = some e := by
  have hrun := run_append_of_error h ending []
  rwa [List.append_nil] at hrun

/-- The forms of a run are the finished ones of some progress, and what every accepted token keeps
holds of that progress too. -/
theorem exists_finished_of_run {Inv : Progress → Prop} {limit : Int} {tokens : List Token}
    (hfeed : ∀ t ∈ tokens, ∀ p q : Progress, Inv p → p.feed limit t = .ok q → Inv q)
    {p : Progress} (hp : Inv p) (ending : Except SyntaxError Position) :
    ∃ q : Progress, Inv q ∧ (p.run limit ending tokens).1 = q.finished.reverse := by
  induction tokens generalizing p with
  | nil => cases ending <;> exact ⟨p, hp, rfl⟩
  | cons t rest ih =>
    rw [List.forall_mem_cons] at hfeed
    rw [run]
    cases hresult : p.feed limit t with
    | error e => exact ⟨p, hp, rfl⟩
    | ok q => exact ih hfeed.2 (hfeed.1 p q hp hresult)

/-- A token that is not accepted makes a parse error that more text does not mend. -/
theorem kind_of_feed_error {limit : Int} {p : Progress} {t : Token} {e : SyntaxError}
    (h : p.feed limit t = .error e) : e.fault.kind = .parse := by
  unfold feed at h
  split at h
  · split at h
    · cases h
    · cases h
      rfl
  · split at h
    · split at h
      · cases h
        rfl
      · cases h
    · cases h
    · cases h

/-- Tokens of which one is not accepted make a parse error. -/
theorem kind_of_foldlM_error {limit : Int} {p : Progress} {tokens : List Token} {e : SyntaxError}
    (h : tokens.foldlM (feed limit) p = .error e) : e.fault.kind = .parse := by
  induction tokens generalizing p with
  | nil => cases h
  | cons t rest ih =>
    rw [List.foldlM_cons] at h
    cases hfeed : p.feed limit t with
    | error e' =>
      rw [hfeed] at h
      cases h
      exact kind_of_feed_error hfeed
    | ok p' =>
      rw [hfeed] at h
      exact ih h

end Progress

/-- Reading all the forms of a text is running the machine on its tokens. -/
theorem drain_eq_run {text : String} {tokens : List Token} {ending : Except SyntaxError Position}
    (h : (Cursor.ofText text).Yields tokens ending) (limit : Int) :
    drain limit (.ofText text) = Progress.run limit ending {} tokens := by
  rw [← Progress.resume_eq_run (Scanner.standsAt_self text.toList {}) h]
  simp [Progress.resume, Scanner.ofText]

/-- All the forms of a text can be read exactly when reading them meets no error. -/
theorem parseAll_eq_ok_iff {limit : Int} {text : String} {forms : List (List Value)} :
    parseAll limit text = .ok forms ↔ drain limit (.ofText text) = (forms, none) := by
  unfold parseAll
  split
  · next h => simp [h]
  · next h => simp [h]

/-- Reading all the forms of a text fails with the error that it meets. -/
theorem parseAll_eq_error_iff {limit : Int} {text : String} {e : SyntaxError} :
    parseAll limit text = .error e ↔ (drain limit (.ofText text)).2 = some e := by
  unfold parseAll
  split
  · next h => simp [h]
  · next h => simp [h]

end Lisplet.Form
