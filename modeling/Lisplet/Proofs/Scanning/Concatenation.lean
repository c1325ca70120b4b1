import Lisplet.Proofs.Scanning.Relocation

/-!
# Texts put together

The tokens of two texts put together are those of the first and then those of the second, at places
counted on from the end of the first. For this the first has to scan, and an atom at its very end
must not go on into the second. An error that the second text has ends the tokens of both.
-/

namespace Lisplet.Scanner

open Cursor (shiftedEnding endingOf yields_drain_ofText)

/-- The ending of a text that stands behind another has the error of the text by itself. -/
theorem error_of_endingOf {error error' : Option SyntaxError} {last last' : Scanner}
    {base : Position} (h : endingOf error last = shiftedEnding base (endingOf error' last')) :
    error = error'.map (·.shiftedBy base) := by
  cases error with
  | none =>
    cases error' with
    | none => rfl
    | some e => cases h
  | some e =>
    cases error' with
    | none => cases h
    | some e' =>
      cases h
      rfl

/-- A text that scans is read to its end. -/
theorem yields_of_drain {text : String} (h : (ofText text).drain.2.1 = none) :
    (Cursor.ofText text).Yields (ofText text).drain.1 (.ok (.endOf text.toList)) := by
  have hyields := yields_drain_ofText text
  rw [h, endingOf] at hyields
  have hposition := hyields.position_eq
  rw [Cursor.ofText, Position.advanceOver_start] at hposition
  rwa [hposition] at hyields

/-- A text scans behind another one as it does by itself, at shifted places. -/
theorem yields_behind (text : String) (base : Position) :
    Cursor.Yields ⟨text.toList, base⟩ ((ofText text).drain.1.map (·.shiftedBy base))
      (shiftedEnding base (endingOf (ofText text).drain.2.1 (ofText text).drain.2.2)) := by
  have hshifted := (yields_drain_ofText text).shiftedBy base
  rwa [Cursor.ofText, Cursor.shiftedBy_start] at hshifted

/-- A text that scans and an addition have the tokens of both, and the error of the addition if that
has one, if no atom goes on from the one into the other: either none ends the text, or the addition
starts with what ends it. -/
theorem drain_append_of_cut {text more : String} (h : (ofText text).drain.2.1 = none)
    (hcut : (∀ t ∈ (ofText text).drain.1, t.IsAtom → t.start.offset + t.length ≠ text.length) ∨
      Cursor.EndsAtom more.toList) :
    (ofText (text ++ more)).drain.1 =
        (ofText text).drain.1 ++ (ofText more).drain.1.map (·.shiftedBy (.endOf text.toList)) ∧
      (ofText (text ++ more)).drain.2.1 =
        (ofText more).drain.2.1.map (·.shiftedBy (.endOf text.toList)) := by
  have hmore : ∀ t ∈ (ofText text).drain.1.getLast?, t.IsAtom →
      t.start.offset + t.length = (Position.endOf text.toList).offset →
        Cursor.EndsAtom more.toList := by
    intro t ht hatom hend
    obtain hnone | hends := hcut
    · exact absurd hend (hnone t (List.mem_of_getLast? ht) hatom)
    · exact hends
  have hboth := (yields_of_drain h).append_of_cut hmore (yields_behind more _)
  rw [← Cursor.ofText_append] at hboth
  obtain ⟨htokens, hending⟩ := (yields_drain_ofText (text ++ more)).unique hboth
  exact ⟨htokens, error_of_endingOf hending⟩

/-- An open literal behind a closing parenthesis is found at the place counted on from the line feed
before it, and the parenthesis ends the number before it. -/
theorem drain_append_of_cut_open_literal :
    (ofText "(f\n -1").drain.2.1 = none ∧ Cursor.EndsAtom ") \"y".toList ∧
      (ofText ("(f\n -1" ++ ") \"y")).drain.1.map Token.start =
        [⟨0, 0, 0⟩, ⟨1, 0, 1⟩, ⟨4, 1, 1⟩, ⟨6, 1, 3⟩] ∧
      (ofText ("(f\n -1" ++ ") \"y")).drain.2.1 = some ⟨.unterminatedText, 1, 5, 2⟩ := by
  have hscans : (ofText "(f\n -1").drain.2.1 = none := by decide +kernel
  have hends : Cursor.EndsAtom ") \"y".toList := Cursor.endsAtom_cons.mpr rfl
  obtain ⟨htokens, herror⟩ := drain_append_of_cut hscans (Or.inr hends)
  refine ⟨hscans, hends, ?_, ?_⟩
  · rw [htokens]
    decide +kernel
  · rw [herror]
    decide +kernel

end Lisplet.Scanner
