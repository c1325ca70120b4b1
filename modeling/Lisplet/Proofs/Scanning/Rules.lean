import Lisplet.Proofs.Scanning.Agreement

/-!
# The rules of longest match

The longest-match scanner as a set of rules, one for each kind of token and each error, every
rule with all that has to hold for it to apply. Exactly one rule applies at a cursor, so facts
about scanning are proved rule by rule.
-/

namespace Lisplet.Cursor

open Text

/-- What the token at a cursor that stands at no blank can come to. -/
inductive Lexes (p : Cursor) : Step → Prop
  | finish (h : p.rest = []) : Lexes p (.ok none, p)
  | openParen {rest : List Char} (h : p.rest = '(' :: rest) : Lexes p (p.token .openParen ['('])
  | closeParen {rest : List Char} (h : p.rest = ')' :: rest) : Lexes p (p.token .closeParen [')'])
  | text {rest raw content : List Char} (h : p.rest = '"' :: rest)
      (hliteral : literal? rest = some (raw, content)) :
      Lexes p (p.token (.text (String.ofList content)) ('"' :: raw))
  | unterminated {rest : List Char} (h : p.rest = '"' :: rest) (hliteral : literal? rest = none) :
      Lexes p (.error ⟨.unterminatedText, p.position.line, p.position.column, p.rest.length⟩,
        p.past p.rest)
  | number {raw : List Char} (h : StartsNumber p.rest) (hraw : p.run Scanner.isNumberChar = raw)
      (hend : EndsAtom (p.past raw).rest) (hmatches : raw ∈ Numeral.pattern.matches') :
      Lexes p (p.token (.number (Numeral.denoted raw).value) raw)
  | malformed {raw : List Char} (h : StartsNumber p.rest) (hraw : p.run Scanner.isNumberChar = raw)
      (hend : EndsAtom (p.past raw).rest) (hmatches : raw ∉ Numeral.pattern.matches') :
      Lexes p (.error ⟨.malformedNumber (String.ofList raw), p.position.line, p.position.column,
        raw.length⟩, p.past raw)
  | unexpected {raw : List Char} (h : StartsNumber p.rest) (hraw : p.run Scanner.isNumberChar = raw)
      (hend : ¬ EndsAtom (p.past raw).rest) :
      Lexes p (.error (.atPosition .unexpectedCharacter (p.past raw).position), p.past raw)
  | symbol {c : Char} {rest raw : List Char} (h : p.rest = c :: rest) (hopen : c ≠ '(')
      (hclose : c ≠ ')') (hquote : c ≠ '"') (hnumber : ¬ StartsNumber p.rest)
      (hraw : (p.run fun c => !Scanner.endsAtom c) = raw) :
      Lexes p (p.token (.symbol (String.ofList raw)) raw)

/-- Some rule applies at every cursor. -/
theorem lexes_lexeme (p : Cursor) : Lexes p p.lexeme := by
  unfold lexeme
  split
  · next h => exact .finish h
  · next c rest h =>
    split
    · next hc => exact .openParen (hc ▸ h)
    split
    · next hc => exact .closeParen (hc ▸ h)
    split
    · next hc =>
      subst hc
      unfold quoted
      split
      · next hliteral => exact .text h hliteral
      · next hliteral => exact .unterminated h hliteral
    split
    · next hnumber =>
      unfold number
      dsimp only
      split
      · next hend =>
        unfold numeral
        split
        · next hmatches => exact .number hnumber rfl hend hmatches
        · next hmatches => exact .malformed hnumber rfl hend hmatches
      · next hend => exact .unexpected hnumber rfl hend
    · next hopen hclose hquote hnumber => exact .symbol h hopen hclose hquote hnumber rfl

/-- A text that starts a number starts with no parenthesis and no quote. -/
theorem lexeme_of_startsNumber {p : Cursor} (h : StartsNumber p.rest) : p.lexeme = p.number := by
  cases hrest : p.rest with
  | nil => simp [hrest, StartsNumber] at h
  | cons c rest =>
    rw [hrest] at h
    have hne : c ≠ '(' ∧ c ≠ ')' ∧ c ≠ '"' := by
      refine ⟨?_, ?_, ?_⟩ <;> rintro rfl <;> simp [StartsNumber] at h
    simp [lexeme, hrest, hne, h]

/-- Only one rule applies at a cursor. -/
theorem lexeme_eq_of_lexes {p : Cursor} {step : Step} (h : Lexes p step) : p.lexeme = step := by
  cases h with
  | finish h => simp [lexeme, h]
  | openParen h => simp [lexeme, h]
  | closeParen h => simp [lexeme, h]
  | text h hliteral => simp [lexeme, h, quoted, hliteral]
  | unterminated h hliteral => simp [lexeme, h, quoted, hliteral]
  | number h hraw hend hmatches =>
    simp [lexeme_of_startsNumber h, number, hraw, hend, numeral, hmatches]
  | malformed h hraw hend hmatches =>
    simp [lexeme_of_startsNumber h, number, hraw, hend, numeral, hmatches]
  | unexpected h hraw hend => simp [lexeme_of_startsNumber h, number, hraw, hend]
  | symbol h hopen hclose hquote hnumber hraw =>
    rw [h] at hnumber
    simp [lexeme, h, hopen, hclose, hquote, hnumber, symbol, hraw]

/-- Moving past the front of a text leaves what follows it. -/
theorem rest_past {p : Cursor} {raw : List Char} (h : raw <+: p.rest) :
    p.rest = raw ++ (p.past raw).rest := by
  obtain ⟨rest, hrest⟩ := h
  rw [past, ← hrest, List.drop_left]

/-- Whatever scanning comes to, it moves past characters that stood at the cursor. -/
theorem Lexes.exists_raw {p : Cursor} {step : Step} (h : Lexes p step) :
    ∃ raw, p.rest = raw ++ step.2.rest ∧ step.2.position = p.position.advanceOver raw := by
  have hpast : ∀ raw, raw <+: p.rest → ∃ raw', p.rest = raw' ++ (p.past raw).rest ∧
      (p.past raw).position = p.position.advanceOver raw' :=
    fun raw hraw => ⟨raw, rest_past hraw, rfl⟩
  cases h with
  | finish h => exact ⟨[], rfl, rfl⟩
  | @openParen rest h => exact hpast ['('] ⟨rest, h.symm⟩
  | @closeParen rest h => exact hpast [')'] ⟨rest, h.symm⟩
  | @text rest raw content h hliteral =>
    obtain ⟨after, hafter⟩ := prefix_of_literal? hliteral
    exact hpast ('"' :: raw) ⟨after, by rw [h, ← hafter, List.cons_append]⟩
  | unterminated h hliteral => exact hpast p.rest (List.prefix_refl _)
  | number h hraw hend hmatches => exact hpast _ (hraw ▸ List.takeWhile_prefix _)
  | malformed h hraw hend hmatches => exact hpast _ (hraw ▸ List.takeWhile_prefix _)
  | unexpected h hraw hend => exact hpast _ (hraw ▸ List.takeWhile_prefix _)
  | symbol h hopen hclose hquote hnumber hraw => exact hpast _ (hraw ▸ List.takeWhile_prefix _)

/-- Scanning fails with lexical errors alone. -/
theorem Lexes.kind_of_error {p : Cursor} {step : Step} (h : Lexes p step) {e : SyntaxError}
    (herror : step.1 = .error e) : e.fault.kind = .lexical := by
  cases h <;> cases herror <;> rfl

end Lisplet.Cursor
