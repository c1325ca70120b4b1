import Lisplet.Scanner
import Lisplet.Proofs.Numeral.Denoted

/-!
# Scanning by longest match

A second scanner, without states and without a kept token. It looks at the first character that
is not blank and takes the longest run that this character can start, so what it yields depends
on the text from its cursor on and on nothing that happened before. It leaves the character that
ends a number or a symbol where it is.
-/

namespace Lisplet

/-- A place in a text with all that is left to read from there. -/
structure Cursor where
  rest : List Char
  position : Position := {}
  deriving DecidableEq

namespace Cursor

/-- What asking for a token comes to, and the cursor to go on with. -/
abbrev Step := Except SyntaxError (Option Token) × Cursor

/-- The cursor at the start of a text. -/
def ofText (text : String) : Cursor := { rest := text.toList }

/-- The longest run of a class at a cursor. -/
def run (p : Cursor) (test : Char → Bool) : List Char := p.rest.takeWhile test

/-- The cursor behind a text that stands at it. -/
def past (p : Cursor) (raw : List Char) : Cursor :=
  ⟨p.rest.drop raw.length, p.position.advanceOver raw⟩

/-- The cursor behind the longest run of blanks. -/
def skipBlanks (p : Cursor) : Cursor := p.past (p.run Text.isBlank)

/-- A text literal behind its opening quote, up to the first quote that no backslash in front
takes away, together with what it denotes: each backslash is dropped and the character behind it
kept. -/
def literal? : List Char → Option (List Char × List Char)
  | [] => none
  | c :: rest =>
    if c = '"' then some ([c], [])
    else if c = '\\' then
      match rest with
      | [] => none
      | d :: more => (literal? more).map fun (raw, content) => (c :: d :: raw, d :: content)
    else (literal? rest).map fun (raw, content) => (c :: raw, c :: content)

/-- A quote ends a text literal. -/
@[simp] theorem literal?_quote (rest : List Char) :
    literal? ('"' :: rest) = some (['"'], []) := by
  rw [literal?.eq_def]
  rfl

/-- A backslash takes the character behind it into a text literal. -/
@[simp] theorem literal?_backslash (d : Char) (rest : List Char) :
    literal? ('\\' :: d :: rest) =
      (literal? rest).map fun (raw, content) => ('\\' :: d :: raw, d :: content) := by
  rw [literal?.eq_def]
  rfl

/-- Any other character of a text literal denotes itself. -/
theorem literal?_cons {c : Char} (hquote : c ≠ '"') (hslash : c ≠ '\\') (rest : List Char) :
    literal? (c :: rest) =
      (literal? rest).map fun (raw, content) => (c :: raw, c :: content) := by
  rw [literal?.eq_def]
  simp only [hquote, hslash, if_false]

/-- A text literal stands at the front of the text. -/
theorem prefix_of_literal? {text raw content : List Char}
    (h : literal? text = some (raw, content)) : raw <+: text := by
  fun_induction literal? text generalizing raw content with
  | case1 => cases h
  | case2 rest =>
    cases h
    exact ⟨rest, rfl⟩
  | case3 => cases h
  | case4 d more hne ih =>
    obtain ⟨⟨inner, denoted⟩, hinner, heq⟩ := Option.map_eq_some_iff.mp h
    cases heq
    obtain ⟨rest, rfl⟩ := ih hinner
    exact ⟨rest, rfl⟩
  | case5 c rest hquote hslash ih =>
    obtain ⟨⟨inner, denoted⟩, hinner, heq⟩ := Option.map_eq_some_iff.mp h
    cases heq
    obtain ⟨rest, rfl⟩ := ih hinner
    exact ⟨rest, rfl⟩

/-- Whether a number starts at a text: with a digit, or with a minus sign right before one. -/
def StartsNumber : List Char → Prop
  | [] => False
  | c :: rest => c.isDigit = true ∨ c = '-' ∧ ∃ d ∈ rest.head?, d.isDigit = true

instance : DecidablePred StartsNumber := fun text =>
  match text with
  | [] => inferInstanceAs (Decidable False)
  | _ :: _ => inferInstanceAs (Decidable (_ ∨ _))

/-- A text before which an atom may end: it is empty, or starts with a blank or a closing
parenthesis. -/
def EndsAtom (text : List Char) : Prop := ∀ c ∈ text.head?, Scanner.endsAtom c = true

instance : DecidablePred EndsAtom := fun text =>
  inferInstanceAs (Decidable (∀ c ∈ text.head?, Scanner.endsAtom c = true))

/-- A token whose characters stand at a cursor. -/
def token (p : Cursor) (lexeme : Lexeme) (raw : List Char) : Step :=
  (.ok (some ⟨lexeme, p.position, raw.length⟩), p.past raw)

/-- The text that the literal at a cursor denotes, given what follows its opening quote. -/
def quoted (p : Cursor) (rest : List Char) : Step :=
  match literal? rest with
  | some (raw, content) => p.token (.text (String.ofList content)) ('"' :: raw)
  | none => (.error ⟨.unterminatedText, p.position.line, p.position.column, p.rest.length⟩,
      p.past p.rest)

/-- The number that a run of characters makes if it matches the pattern of numerals. -/
def numeral (p : Cursor) (raw : List Char) : Step :=
  if raw ∈ Numeral.pattern.matches' then p.token (.number (Numeral.denoted raw).value) raw
  else (.error ⟨.malformedNumber (String.ofList raw), p.position.line, p.position.column,
    raw.length⟩, p.past raw)

/-- The number at a cursor: the longest run of number characters, which must end where an atom
may end. The character that it cannot end at is reported and left. -/
def number (p : Cursor) : Step :=
  let raw := p.run Scanner.isNumberChar
  if EndsAtom (p.past raw).rest then p.numeral raw
  else (.error (.atPosition .unexpectedCharacter (p.past raw).position), p.past raw)

/-- The symbol at a cursor: everything up to a blank or a closing parenthesis. -/
def symbol (p : Cursor) : Step :=
  let raw := p.run fun c => !Scanner.endsAtom c
  p.token (.symbol (String.ofList raw)) raw

/-- The token at a cursor that does not stand at a blank. -/
def lexeme (p : Cursor) : Step :=
  match p.rest with
  | [] => (.ok none, p)
  | c :: rest =>
    if c = '(' then p.token .openParen ['(']
    else if c = ')' then p.token .closeParen [')']
    else if c = '"' then p.quoted rest
    else if StartsNumber p.rest then p.number
    else p.symbol

/-- Behind a run stands what the run leaves. -/
theorem rest_past_run (p : Cursor) (test : Char → Bool) :
    (p.past (p.run test)).rest = p.rest.dropWhile test :=
  Text.drop_length_takeWhile test p.rest

/-- A run and what stands behind it make up what is left to read. -/
theorem run_append (p : Cursor) (test : Char → Bool) :
    p.run test ++ (p.past (p.run test)).rest = p.rest := by
  rw [rest_past_run, run, List.takeWhile_append_dropWhile]

/-- Behind a run stands nothing that goes on with it. -/
theorem stopsRun_past_run (p : Cursor) (test : Char → Bool) :
    Text.StopsRun test (p.past (p.run test)).rest := by
  rw [rest_past_run]
  exact Text.stopsRun_dropWhile test p.rest

/-- Every character of a run is of its class. -/
theorem of_mem_run {p : Cursor} {test : Char → Bool} {c : Char} (h : c ∈ p.run test) :
    test c = true := List.mem_takeWhile_imp h

/-- A run is no longer than what is left to read. -/
theorem length_run_le (p : Cursor) (test : Char → Bool) : (p.run test).length ≤ p.rest.length :=
  (List.takeWhile_prefix test).length_le

/-- A cursor passes over blanks in front of it. -/
theorem skipBlanks_append {blanks : List Char} (h : ∀ c ∈ blanks, Text.isBlank c = true)
    (rest : List Char) (position : Position) :
    skipBlanks ⟨blanks ++ rest, position⟩ =
      skipBlanks ⟨rest, position.advanceOver blanks⟩ := by
  simp [skipBlanks, run, past, List.takeWhile_append_of_pos h,
    Position.advanceOver_append]

/-- The next token. -/
def next (p : Cursor) : Step := p.skipBlanks.lexeme

/-- What a number of requests for a token come to, one after the other, whether they fail or
not. -/
def outcomes : ℕ → Cursor → List (Except SyntaxError (Option Token))
  | 0, _ => []
  | count + 1, p => p.next.1 :: outcomes count p.next.2

/-- An atom may end at the end of a text. -/
@[simp] theorem endsAtom_nil : EndsAtom [] := by simp [EndsAtom]

/-- Whether an atom may end before a text depends on the first character alone. -/
@[simp] theorem endsAtom_cons {c : Char} {rest : List Char} :
    EndsAtom (c :: rest) ↔ Scanner.endsAtom c = true := by simp [EndsAtom]

end Cursor

end Lisplet
