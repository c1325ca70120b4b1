import Lisplet.Proofs.Form.RoundTrip
import Lisplet.Proofs.Form.Flattening
import Lisplet.Proofs.Scanning.Requests

/-!
# Pulling forms

The forms of a text are handed over one at a time. When a form is, the scanner has read it to its
closing parenthesis and not a character further, and the form is all that is written from its
opening parenthesis to that closing one.
-/

namespace Lisplet.Form

open Progress

/-- The scanner after a number of forms have been asked for one after the other. -/
def pulled (limit : Int) : ℕ → Scanner → Scanner
  | 0, s => s
  | count + 1, s => pulled limit count (next limit s).scanner

/-- The text between two offsets of a text. -/
def slice (text : String) (start stop : ℕ) : String :=
  String.ofList ((text.toList.drop start).take (stop - start))

/-- A token that is accepted goes before those that are accepted behind it. -/
theorem exists_reads_cons {limit : Int} {s s' : Scanner} {t : Token} {p p' q : Progress}
    (h : s.next.outcome = .ok (some t)) (hfeed : p.feed limit t = .ok p')
    (hrest : ∃ tokens, s.next.scanner.Reads tokens s' ∧ tokens.foldlM (feed limit) p' = .ok q) :
    ∃ tokens, s.Reads tokens s' ∧ tokens.foldlM (feed limit) p = .ok q := by
  obtain ⟨tokens, hreads, hfed⟩ := hrest
  exact ⟨t :: tokens, Scanner.reads_cons.mpr ⟨h, hreads⟩, foldlM_feed_cons.mpr ⟨p', hfeed, hfed⟩⟩

/-- A list that is read to its end is read from tokens that are all accepted. -/
theorem exists_reads_of_readItems {limit depth : Int} {waiting : List (List Value)}
    {items form : List Value} {s : Scanner} (hdepth : depth = waiting.length + 1)
    (h : (readItems limit depth waiting items s).outcome = .ok form)
    (finished : List (List Value)) :
    ∃ tokens, s.Reads tokens (readItems limit depth waiting items s).scanner ∧
      tokens.foldlM (feed limit) ⟨finished, items :: waiting⟩ = .ok ⟨form :: finished, []⟩ := by
  fun_induction readItems limit depth waiting items s with
  | case1 depth waiting items s e he => cases h
  | case2 depth waiting items s hnone => cases h
  | case3 depth items s t ht hlt hclose =>
    cases h
    have hfeed : feed limit ⟨finished, [items]⟩ t = .ok ⟨inOrder items :: finished, []⟩ := by
      simp [feed, hclose, Progress.close]
    exact exists_reads_cons ht hfeed ⟨[], Scanner.reads_nil.mpr rfl, rfl⟩
  | case4 depth items s t ht hlt hclose outer more ih =>
    have hfeed : feed limit ⟨finished, items :: outer :: more⟩ t =
        .ok ⟨finished, (.list (inOrder items) :: outer) :: more⟩ := by
      simp [feed, hclose, Progress.close]
    rw [List.length_cons] at hdepth
    exact exists_reads_cons ht hfeed (ih (by omega) h)
  | case5 depth waiting items s t ht hlt hopen hlimit => cases h
  | case6 depth waiting items s t ht hlt hopen hlimit ih =>
    have hfeed : feed limit ⟨finished, items :: waiting⟩ t =
        .ok ⟨finished, [] :: items :: waiting⟩ := by
      simp [feed, hopen, ← hdepth, hlimit]
    exact exists_reads_cons ht hfeed (ih (by rw [List.length_cons]; omega) h)
  | case7 depth waiting items s t ht hlt hclose hopen ih =>
    exact exists_reads_cons ht (feed_leaf hopen hclose) (ih hdepth h)

/-- The next form is read from tokens that are all accepted. -/
theorem exists_reads_of_next {limit : Int} {s : Scanner} {form : List Value}
    (h : (next limit s).outcome = .ok (some form)) (finished : List (List Value)) :
    ∃ tokens, s.Reads tokens (next limit s).scanner ∧
      tokens.foldlM (feed limit) ⟨finished, []⟩ = .ok ⟨form :: finished, []⟩ := by
  cases houtcome : s.next.outcome with
  | error e => simp [next, houtcome] at h
  | ok found =>
    cases found with
    | none => simp [next, houtcome] at h
    | some t =>
      by_cases hkind : t.kind = .openParen
      · have hfeed : feed limit ⟨finished, []⟩ t = .ok ⟨finished, [[]]⟩ := by simp [feed, hkind]
        rw [next_of_openParen houtcome hkind] at h ⊢
        cases hitems : (readItems limit 1 [] [] s.next.scanner).outcome with
        | error e => simp [hitems, Except.map] at h
        | ok items =>
          obtain rfl : items = form := by simpa [hitems, Except.map] using h
          have hlist := exists_reads_of_readItems (by simp) hitems finished
          exact exists_reads_cons houtcome hfeed hlist
      · simp [next, houtcome, expect, hkind] at h

/-- The next form is written out as the tokens that it is read from. -/
theorem exists_brackets_of_next {limit : Int} {s : Scanner} {form : List Value}
    (h : (next limit s).outcome = .ok (some form)) :
    ∃ (opening closing : Token) (inner : List Token),
      s.Reads (opening :: (inner ++ [closing])) (next limit s).scanner ∧
        (opening :: (inner ++ [closing])).map Token.lexeme = (Value.list form).lexemes ∧
        closing.lexeme = .closeParen := by
  obtain ⟨tokens, hreads, hfed⟩ := exists_reads_of_next h []
  have hlexemes : tokens.map Token.lexeme = (Value.list form).lexemes := by
    simpa [Progress.lexemes, flatten] using (lexemes_foldlM hfed).symm
  have hbrackets := hlexemes
  rw [Value.lexemes_list, List.map_eq_cons_iff] at hbrackets
  obtain ⟨opening, others, rfl, -, hothers⟩ := hbrackets
  obtain ⟨inner, last, rfl, -, hlast⟩ := List.map_eq_append_iff.mp hothers
  obtain ⟨closing, rfl, hclosing⟩ := List.map_eq_singleton_iff.mp hlast
  exact ⟨opening, closing, inner, hreads, hlexemes, hclosing⟩

/-- However reading a list ends, it has only asked for tokens. -/
theorem exists_after_readItems (limit depth : Int) (waiting : List (List Value))
    (items : List Value) (s : Scanner) :
    ∃ count, (readItems limit depth waiting items s).scanner = s.after count := by
  fun_induction readItems limit depth waiting items s with
  | case1 => exact ⟨1, rfl⟩
  | case2 => exact ⟨1, rfl⟩
  | case3 => exact ⟨1, rfl⟩
  | case4 _ _ _ _ _ _ _ _ _ ih =>
    obtain ⟨count, hcount⟩ := ih
    exact ⟨count + 1, hcount⟩
  | case5 => exact ⟨1, rfl⟩
  | case6 _ _ _ _ _ _ _ _ _ ih =>
    obtain ⟨count, hcount⟩ := ih
    exact ⟨count + 1, hcount⟩
  | case7 _ _ _ _ _ _ _ _ _ ih =>
    obtain ⟨count, hcount⟩ := ih
    exact ⟨count + 1, hcount⟩

/-- However asking for a form ends, it has only asked for tokens. -/
theorem exists_after_next (limit : Int) (s : Scanner) :
    ∃ count, (next limit s).scanner = s.after count := by
  cases houtcome : s.next.outcome with
  | error e => exact ⟨1, by simp [next, houtcome, Scanner.after]⟩
  | ok found =>
    cases found with
    | none => exact ⟨1, by simp [next, houtcome, Scanner.after]⟩
    | some t =>
      by_cases hkind : t.kind = .openParen
      · obtain ⟨count, hcount⟩ := exists_after_readItems limit 1 [] [] s.next.scanner
        rw [next_of_openParen houtcome hkind]
        exact ⟨count + 1, hcount⟩
      · exact ⟨1, by simp [next, houtcome, expect, hkind, Scanner.after]⟩

/-- Asking for forms one after the other only asks for tokens. -/
theorem exists_after_pulled (limit : Int) (i : ℕ) (s : Scanner) :
    ∃ count, pulled limit i s = s.after count := by
  induction i generalizing s with
  | zero => exact ⟨0, rfl⟩
  | succ i ih =>
    obtain ⟨first, hfirst⟩ := exists_after_next limit s
    obtain ⟨others, hothers⟩ := ih (next limit s).scanner
    exact ⟨first + others, by rw [pulled, hothers, hfirst, Scanner.after_add]⟩

/-- Asking for forms one after the other comes to the forms of a text in their order. -/
theorem next_pulled {limit : Int} {s : Scanner} {i : ℕ} {form : List Value}
    (h : (drain limit s).1[i]? = some form) :
    (next limit (pulled limit i s)).outcome = .ok (some form) := by
  induction i generalizing s with
  | zero =>
    rw [drain_eq] at h
    rw [pulled]
    split at h
    · cases h
    · cases h
    · next first hfirst =>
      rw [hfirst]
      simpa using h
  | succ i ih =>
    rw [drain_eq] at h
    split at h
    · cases h
    · cases h
    · exact ih h

/-- Each form is asked for where the one before it has been read. -/
theorem pulled_succ (limit : Int) (count : ℕ) (s : Scanner) :
    pulled limit (count + 1) s = (next limit (pulled limit count s)).scanner := by
  induction count generalizing s with
  | zero => rfl
  | succ count ih => exact ih (next limit s).scanner

end Lisplet.Form
