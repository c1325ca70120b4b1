import Lisplet.Proofs.Form.Progress
import Lisplet.Proofs.Scanning.Extension

/-!
# Closing the open lists of a text

A text is unbalanced when it ends inside open lists and nothing else is wrong with it. Such a text
can be completed by closing parentheses alone, and only by as many as lists are open; a text with
any other error cannot be completed by them at all. So the unbalanced error is an exact sign that
more input may follow.
-/

namespace Lisplet.Form

open Cursor (Yields next_closeParen)

/-- A row of closing parentheses. -/
def closing (count : ℕ) : String := String.ofList (List.replicate count ')')

/-- Whether reading all the forms of a text ends with lists left open. -/
def Unbalanced (limit : Int) (text : String) : Prop :=
  ∃ e, parseAll limit text = .error e ∧ e.fault.kind = .unbalanced

/-- Whether all the forms of a text can be read. -/
def Complete (limit : Int) (text : String) : Prop := ∃ forms, parseAll limit text = .ok forms

/-- The tokens of a row of closing parentheses. -/
def closers : ℕ → Position → List Token
  | 0, _ => []
  | count + 1, here => ⟨.closeParen, here, 1⟩ :: closers count (here.advance ')')

/-- A row of closing parentheses yields its tokens. -/
theorem yields_closers (count : ℕ) (here : Position) :
    Yields ⟨List.replicate count ')', here⟩ (closers count here)
      (.ok (here.advanceOver (List.replicate count ')'))) := by
  induction count generalizing here with
  | zero => exact Cursor.yields_nil here
  | succ count ih =>
    rw [List.replicate_succ, Position.advanceOver_cons]
    exact .token (next_closeParen _ here) (ih (here.advance ')'))

/-- The error that closing parentheses lead to when a number of lists is open: too few leave the
text unbalanced at its end, and the first one too many is not expected where it stands. -/
def closingError (opened count : ℕ) (here : Position) : Option SyntaxError :=
  if count < opened then
    some (.atPosition .unclosed (here.advanceOver (List.replicate count ')')))
  else if count = opened then none
  else some (.atToken (.expected .openParen (some .closeParen))
    ⟨.closeParen, here.advanceOver (List.replicate opened ')'), 1⟩)

/-- Closing parentheses close one open list each. -/
theorem run_closers (limit : Int) (p : Progress) (count : ℕ) (here : Position) :
    (p.run limit (.ok (here.advanceOver (List.replicate count ')'))) (closers count here)).2 =
      closingError p.opened.length count here := by
  induction count generalizing p here with
  | zero =>
    obtain ⟨finished, opened⟩ := p
    cases opened <;> simp [closers, Progress.run, Progress.finish, closingError]
  | succ count ih =>
    obtain ⟨finished, opened⟩ := p
    cases opened with
    | nil => simp [closers, Progress.run, Progress.feed, closingError, Token.kind, Lexeme.kind]
    | cons items waiting =>
      have hclose : (Progress.close ⟨finished, items :: waiting⟩ items waiting).opened.length =
          waiting.length := by
        cases waiting <;> rfl
      have hih := ih (Progress.close ⟨finished, items :: waiting⟩ items waiting) (here.advance ')')
      rw [hclose] at hih
      rw [closers, Progress.run]
      simp only [Progress.feed, List.replicate_succ, Position.advanceOver_cons]
      rw [hih]
      simp [closingError, List.replicate_succ]

/-- Closing parentheses go on from where a text ends. -/
theorem ofText_closing (text : String) (count : ℕ) :
    Cursor.ofText (text ++ closing count) =
      (Cursor.ofText text).append (List.replicate count ')') := by
  rw [Cursor.ofText_append, closing, String.toList_ofList]

/-- An atom may end before closing parentheses. -/
theorem endsAtom_closing (count : ℕ) : Cursor.EndsAtom (List.replicate count ')') := by
  intro c hc
  obtain rfl : c = ')' := List.eq_of_mem_replicate (List.mem_of_mem_head? hc)
  rfl

/-- The tokens of a text that scans are followed by those of the closing parentheses behind it. -/
theorem yields_closing {text : String} {tokens : List Token} {here : Position}
    (h : (Cursor.ofText text).Yields tokens (.ok here)) (count : ℕ) :
    (Cursor.ofText (text ++ closing count)).Yields (tokens ++ closers count here)
      (.ok (here.advanceOver (List.replicate count ')'))) := by
  rw [ofText_closing]
  exact h.append (endsAtom_closing count) (yields_closers count here)

/-- The tokens of a text that fails to scan end at an error in spite of closing parentheses. -/
theorem yields_closing_error {text : String} {tokens : List Token} {e : SyntaxError}
    (h : (Cursor.ofText text).Yields tokens (.error e)) (count : ℕ) :
    ∃ e', (Cursor.ofText (text ++ closing count)).Yields tokens (.error e') := by
  have hquote : '"' ∉ List.replicate count ')' :=
    fun hmem => absurd (List.eq_of_mem_replicate hmem) (by decide)
  obtain ⟨e', hyields, -⟩ := h.append_error (endsAtom_closing count) fun _ => hquote
  rw [ofText_closing]
  exact ⟨e', hyields⟩

/-- Closing parentheses behind a text count against the lists it leaves open, unless the text has
an error that they cannot mend. -/
theorem drain_closing (limit : Int) (text : String) :
    (∃ opened, ∀ count, (drain limit (.ofText (text ++ closing count))).2 =
      closingError opened count (Position.advanceOver {} text.toList)) ∨
    ∀ count, ∃ e, (drain limit (.ofText (text ++ closing count))).2 = some e ∧
      e.fault.kind ≠ .unbalanced := by
  obtain ⟨tokens, ending, hyields⟩ := Cursor.exists_yields (Cursor.ofText text)
  cases hfed : tokens.foldlM (Progress.feed limit) {} with
  | error e =>
    -- the tokens of the text stay where they are, and so does the one that is not accepted
    refine Or.inr fun count => ⟨e, ?_, by simp [Progress.kind_of_foldlM_error hfed]⟩
    cases ending with
    | error e' =>
      obtain ⟨e'', hlonger⟩ := yields_closing_error hyields count
      rw [drain_eq_run hlonger]
      exact Progress.run_of_error hfed (.error e'')
    | ok here =>
      rw [drain_eq_run (yields_closing hyields count)]
      exact Progress.run_append_of_error hfed _ _
  | ok q =>
    cases ending with
    | error e' =>
      refine Or.inr fun count => ?_
      obtain ⟨e'', hlonger⟩ := yields_closing_error hyields count
      rw [drain_eq_run hlonger, Progress.run_of_ok hfed]
      exact ⟨e'', rfl, by simp [hlonger.kind_of_error]⟩
    | ok here =>
      obtain rfl := hyields.position_eq
      refine Or.inl ⟨q.opened.length, fun count => ?_⟩
      rw [drain_eq_run (yields_closing hyields count), Progress.run_append_of_ok hfed]
      exact run_closers limit q count _

/-- A text is unbalanced when the error that the reader meets in it is. -/
theorem unbalanced_iff_drain {limit : Int} {text : String} :
    Unbalanced limit text ↔
      ∃ e, (drain limit (.ofText text)).2 = some e ∧ e.fault.kind = .unbalanced := by
  simp only [Unbalanced, parseAll_eq_error_iff]

/-- All the forms of a text can be read when the reader meets no error in it. -/
theorem complete_iff_drain {limit : Int} {text : String} :
    Complete limit text ↔ (drain limit (.ofText text)).2 = none := by
  simp only [Complete, parseAll_eq_ok_iff]
  exact ⟨fun ⟨_, h⟩ => by rw [h], fun h => ⟨_, Prod.ext rfl h⟩⟩

/-- Fewer closing parentheses than open lists leave a text unbalanced. -/
theorem unbalanced_closingError {opened count : ℕ} {here : Position} :
    (∃ e, closingError opened count here = some e ∧ e.fault.kind = .unbalanced) ↔
      count < opened := by
  unfold closingError
  split
  · simp_all [SyntaxError.atPosition, SyntaxFault.kind]
  · split <;> simp_all [SyntaxError.atToken, SyntaxFault.kind]

/-- Exactly as many closing parentheses as open lists leave no error. -/
theorem closingError_eq_none {opened count : ℕ} {here : Position} :
    closingError opened count here = none ↔ count = opened := by
  unfold closingError
  split
  · simp
    omega
  · split <;> simp_all

/-- The first closing parenthesis too many is the error, wherever the others stand. -/
theorem closingError_of_lt {opened count : ℕ} (h : opened < count) (here : Position) :
    closingError opened count here = some (.atToken (.expected .openParen (some .closeParen))
      ⟨.closeParen, here.advanceOver (List.replicate opened ')'), 1⟩) := by
  rw [closingError, if_neg (by omega), if_neg (by omega)]

/-- A text is unbalanced exactly when some number of closing parentheses completes it. Only one
number does: with fewer the text is still unbalanced, and with more the first one too many is
reported where it stands, as the start of a form that is not one. -/
theorem unbalanced_iff_complete_closing (limit : Int) (text : String) :
    (Unbalanced limit text ↔ ∃ k, 1 ≤ k ∧ Complete limit (text ++ closing k)) ∧
    ∀ k, 1 ≤ k → Complete limit (text ++ closing k) →
      (∀ j, Complete limit (text ++ closing j) → j = k) ∧
      (∀ j < k, Unbalanced limit (text ++ closing j)) ∧
      ∀ j > k, ∃ e, parseAll limit (text ++ closing j) = .error e ∧
        e.fault.kind = .parse ∧ e.fault.message = "expected LPAREN, got RPAREN" ∧
        e.line = (Position.advanceOver {} (text ++ closing k).toList).line ∧
        e.column = (Position.advanceOver {} (text ++ closing k).toList).column ∧
        e.length = 1 := by
  have hempty : text ++ closing 0 = text := by simp [closing]
  obtain ⟨opened, hopened⟩ | hbroken := drain_closing limit text
  · have hcomplete (k : ℕ) : Complete limit (text ++ closing k) ↔ k = opened := by
      rw [complete_iff_drain, hopened, closingError_eq_none]
    have hunbalanced (k : ℕ) : Unbalanced limit (text ++ closing k) ↔ k < opened := by
      rw [unbalanced_iff_drain, hopened, unbalanced_closingError]
    constructor
    · have hnow := hunbalanced 0
      rw [hempty] at hnow
      rw [hnow]
      constructor
      · intro hpos
        exact ⟨opened, hpos, (hcomplete opened).mpr rfl⟩
      · rintro ⟨k, hk, hdone⟩
        rw [hcomplete] at hdone
        omega
    · intro k hk hdone
      obtain rfl := (hcomplete k).mp hdone
      refine ⟨fun j hj => (hcomplete j).mp hj, fun j hj => (hunbalanced j).mpr hj, ?_⟩
      intro j hj
      have herror := hopened j
      rw [closingError_of_lt hj, ← Position.advanceOver_append] at herror
      refine ⟨_, parseAll_eq_error_iff.mpr herror, rfl, rfl, ?_⟩
      simp [SyntaxError.atToken, closing]
  · have hnever (k : ℕ) : ¬ Complete limit (text ++ closing k) := by
      obtain ⟨e, he, -⟩ := hbroken k
      simp [complete_iff_drain, he]
    refine ⟨⟨?_, fun ⟨k, _, hdone⟩ => absurd hdone (hnever k)⟩,
      fun k _ hdone => absurd hdone (hnever k)⟩
    rw [unbalanced_iff_drain]
    rintro ⟨e, he, hkind⟩
    obtain ⟨e', he', hkind'⟩ := hbroken 0
    rw [hempty, he] at he'
    cases he'
    exact absurd hkind hkind'

/-- Two closing parentheses complete a text that leaves two lists open, and one does not. -/
theorem complete_closing_two :
    Complete 3 ("(a \"(\" (b" ++ closing 2) ∧
      Unbalanced 3 ("(a \"(\" (b" ++ closing 1) := by
  have hdone : Complete 3 ("(a \"(\" (b" ++ closing 2) := by
    rw [complete_iff_drain]
    decide +kernel
  exact ⟨hdone, ((unbalanced_iff_complete_closing 3 _).2 2 (by decide) hdone).2.1 1 (by decide)⟩

end Lisplet.Form
