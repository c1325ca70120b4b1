import Lisplet.Proofs.Form.Pulls

/-!
# What errors blame

An error of reading a text is found at the last request for a token that reading makes. Either the
request fails, or it comes to a token that is out of place, or there is no token although one is
missing.
-/

namespace Lisplet

namespace SyntaxFault

/-- Whether a fault is that a token is missing. -/
def IsMissing : SyntaxFault → Prop
  | .expected _ none => True
  | .unclosed => True
  | _ => False

/-- Whether a fault can be that a token is out of place. -/
def CanBlame (t : Token) : SyntaxFault → Prop
  | .expected wanted (some got) => got = t.kind ∧ wanted ≠ got
  | .nestedTooDeeply => t.lexeme = .openParen
  | .trailingInput => True
  | _ => False

end SyntaxFault

/-- The errors that a request for a token leads to: its own, one about the token that it comes to,
and one about a token that is missing. -/
inductive Blames (s : Scanner) : SyntaxError → Prop
  | scanning {e : SyntaxError} (h : s.next.outcome = .error e) : Blames s e
  | token {t : Token} {fault : SyntaxFault} (h : s.next.outcome = .ok (some t))
      (hfault : fault.CanBlame t) : Blames s (.atToken fault t)
  | missing {fault : SyntaxFault} (h : s.next.outcome = .ok none) (hfault : fault.IsMissing) :
      Blames s (.atPosition fault s.next.scanner.position)

/-- An error that is found at the last of the requests for tokens that lead from one scanner to
another. -/
def FoundLast (s : Scanner) (e : SyntaxError) (s' : Scanner) : Prop :=
  ∃ count, Blames (s.after count) e ∧ s' = s.after (count + 1)

variable {s s' : Scanner} {e : SyntaxError}

/-- An error that a request leads to is found at it. -/
theorem Blames.foundLast (h : Blames s e) : FoundLast s e s.next.scanner := ⟨0, h, rfl⟩

/-- A request behind others can be counted from where these start. -/
theorem FoundLast.behind (first : ℕ) (h : FoundLast (s.after first) e s') : FoundLast s e s' := by
  obtain ⟨count, hblames, hlast⟩ := h
  rw [← Scanner.after_add] at hblames hlast
  exact ⟨first + count, hblames, hlast⟩

namespace Form

variable {limit : Int}

/-- An error of reading a list is found at the last of the requests for its tokens. -/
theorem foundLast_readItems {depth : Int} {waiting : List (List Value)} {items : List Value}
    (h : (readItems limit depth waiting items s).outcome = .error e) :
    FoundLast s e (readItems limit depth waiting items s).scanner := by
  fun_induction readItems limit depth waiting items s with
  | case1 depth waiting items s e' he =>
    cases h
    exact (Blames.scanning he).foundLast
  | case2 depth waiting items s hnone =>
    cases h
    have hblames : Blames s (.atPosition .unclosed s.next.scanner.position) :=
      .missing hnone trivial
    exact hblames.foundLast
  | case3 depth items s t ht hlt hclose => cases h
  | case4 depth items s t ht hlt hclose outer more ih =>
    exact FoundLast.behind 1 (ih h)
  | case5 depth waiting items s t ht hlt hopen hlimit =>
    cases h
    have hblames : Blames s (.atToken .nestedTooDeeply t) := .token ht hopen
    exact hblames.foundLast
  | case6 depth waiting items s t ht hlt hopen hlimit ih =>
    exact FoundLast.behind 1 (ih h)
  | case7 depth waiting items s t ht hlt hclose hopen ih =>
    exact FoundLast.behind 1 (ih h)

/-- A token of another kind than the wanted one is to blame, and so is the lack of one. -/
theorem blames_of_expect {wanted : TokenKind} {found : Option Token}
    (houtcome : s.next.outcome = .ok found)
    (h : expect wanted s.next.scanner.position found = .error e) : Blames s e := by
  cases found with
  | none =>
    cases h
    exact .missing houtcome trivial
  | some t =>
    rw [expect] at h
    split at h
    · cases h
    · next hkind =>
      cases h
      exact .token houtcome ⟨rfl, Ne.symm hkind⟩

/-- An error of reading the next form is found at the last of the requests for its tokens. -/
theorem foundLast_next (h : (next limit s).outcome = .error e) :
    FoundLast s e (next limit s).scanner := by
  cases houtcome : s.next.outcome with
  | error e' =>
    simp only [next, houtcome] at h ⊢
    cases h
    exact (Blames.scanning houtcome).foundLast
  | ok found =>
    cases found with
    | none => simp [next, houtcome] at h
    | some t =>
      by_cases hkind : t.kind = .openParen
      · rw [next_of_openParen houtcome hkind] at h ⊢
        cases hitems : (readItems limit 1 [] [] s.next.scanner).outcome with
        | error e' =>
          simp only [hitems, Except.map] at h
          cases h
          exact FoundLast.behind 1 (foundLast_readItems hitems)
        | ok items => simp [hitems, Except.map] at h
      · have hexpect : expect .openParen s.next.scanner.position (some t) = .error e := by
          simpa [next, houtcome, expect, hkind] using h
        have hscanner : (next limit s).scanner = s.next.scanner := by
          simp [next, houtcome, expect, hkind]
        rw [hscanner]
        exact (blames_of_expect houtcome hexpect).foundLast

/-- An error of reading all the forms is found at the last of the requests for their tokens. -/
theorem foundLast_drain (h : (drain limit s).2 = some e) :
    FoundLast s e (pulled limit ((drain limit s).1.length + 1) s) := by
  fun_induction drain limit s with
  | case1 s r e' he =>
    cases h
    exact foundLast_next he
  | case2 s r hnone => cases h
  | case3 s r form hform hlt forms error hdrain ih =>
    obtain ⟨first, hfirst⟩ := exists_after_next limit s
    rw [hdrain] at ih
    have hrest : FoundLast (next limit s).scanner e
        (pulled limit (forms.length + 1) (next limit s).scanner) := ih h
    rw [List.length_cons, pulled]
    rw [hfirst] at hrest ⊢
    exact hrest.behind first

/-- An error of reading a list after which nothing may follow is found at the last of the requests
for its tokens and for what follows it. -/
theorem foundLast_alone (h : (alone (readList limit 1 s)).outcome = .error e) :
    FoundLast s e (alone (readList limit 1 s)).scanner := by
  obtain ⟨count, hcount⟩ := exists_after_readItems limit 1 [] [] s
  unfold alone at h ⊢
  cases hitems : (readList limit 1 s).outcome with
  | error e' =>
    simp only [hitems] at h ⊢
    cases h
    exact foundLast_readItems hitems
  | ok items =>
    rw [readList] at hitems
    simp only [readList, hitems] at h ⊢
    rw [hcount] at h ⊢
    apply FoundLast.behind count
    cases houtcome : (s.after count).next.outcome with
    | error e' =>
      simp only [houtcome] at h ⊢
      cases h
      exact (Blames.scanning houtcome).foundLast
    | ok found =>
      cases found with
      | none => simp [houtcome] at h
      | some t =>
        simp only [houtcome] at h ⊢
        cases h
        have hblames : Blames (s.after count) (.atToken .trailingInput t) :=
          .token houtcome trivial
        exact hblames.foundLast

/-- An error of reading the only form is found at the last of the requests for its tokens and for
what follows it. -/
theorem foundLast_only (h : (only limit s).outcome = .error e) :
    FoundLast s e (only limit s).scanner := by
  cases houtcome : s.next.outcome with
  | error e' =>
    simp only [only, houtcome] at h ⊢
    cases h
    exact (Blames.scanning houtcome).foundLast
  | ok found =>
    cases hexpect : expect .openParen s.next.scanner.position found with
    | error e' =>
      simp only [only, houtcome, hexpect] at h ⊢
      cases h
      exact (blames_of_expect houtcome hexpect).foundLast
    | ok t =>
      simp only [only, houtcome, hexpect] at h ⊢
      exact FoundLast.behind 1 (foundLast_alone h)

end Form

end Lisplet
