import Lisplet.Proofs.Form.Progress

/-!
# Single forms

Reading the only form of a text and reading all its forms agree: the one succeeds exactly when the
other finds a single form, and they come to the same form.
-/

namespace Lisplet.Form

/-- There are no forms exactly where there are no tokens. -/
theorem drain_eq_nil_iff {limit : Int} {s : Scanner} :
    drain limit s = ([], none) ↔ s.next.outcome = .ok none := by
  constructor
  · intro h
    cases houtcome : s.next.outcome with
    | error e => simp [drain_of_error houtcome] at h
    | ok found =>
      cases found with
      | none => rfl
      | some t =>
        by_cases hkind : t.kind = .openParen
        · rw [drain_of_openParen houtcome hkind] at h
          split at h <;> cases h
        · simp [drain_of_other houtcome hkind] at h
  · exact fun h => drain_of_none h limit

/-- A form is alone when no form follows it. -/
theorem alone_outcome_eq_ok_iff (limit : Int) {r : Reading (List Value)} {form : List Value} :
    (alone r).outcome = .ok form ↔
      r.outcome = .ok form ∧ drain limit r.scanner = ([], none) := by
  rw [drain_eq_nil_iff]
  unfold alone
  cases hform : r.outcome with
  | error e => simp [hform]
  | ok items =>
    cases hnext : r.scanner.next.outcome with
    | error e => simp
    | ok found => cases found <;> simp

/-- The only form of a text is read exactly when reading all its forms finds it alone. -/
theorem parse_eq_ok_iff {limit : Int} {text : String} {form : List Value} :
    parse limit text = .ok form ↔ parseAll limit text = .ok [form] := by
  rw [parseAll_eq_ok_iff, parse]
  generalize Scanner.ofText text = s
  unfold only
  cases houtcome : s.next.outcome with
  | error e => simp [drain_of_error houtcome]
  | ok found =>
    cases found with
    | none => simp [drain_of_none houtcome, expect]
    | some t =>
      by_cases hkind : t.kind = .openParen
      · have hread : readList limit 1 s.next.scanner = readItems limit 1 [] [] s.next.scanner :=
          rfl
        simp only [expect, hkind, if_true, hread]
        rw [alone_outcome_eq_ok_iff limit, drain_of_openParen houtcome hkind]
        cases (readItems limit 1 [] [] s.next.scanner).outcome with
        | error e => simp
        | ok items => simp [Prod.ext_iff, and_assoc]
      · simp [drain_of_other houtcome hkind, expect, hkind]

end Lisplet.Form
