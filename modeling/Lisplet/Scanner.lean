import Lisplet.Error.Source
import Lisplet.Numeral
import Lisplet.Text.Blank

/-!
# Scanning tokens

A scanner yields the tokens of a text one at a time and reads no further than it must. It
goes through the characters in one of five states. A blank or a closing parenthesis ends a
number or a symbol; the blank is consumed, and the parenthesis is consumed as well and kept
as the next token. A scanner can go on after an error from where it stands. Every token it
yields brings it nearer to the end of the text, which is why scanning ends.
-/

namespace Lisplet

/-- A place in a text from which scanning goes on: what is left to read, and the closing
parenthesis that has been read together with the token before it, if there is one. -/
structure Scanner where
  rest : List Char
  position : Position := {}
  pending : Option Token := none
  deriving DecidableEq

/-- The outcome of reading something, and the scanner to go on with afterwards, whether that
succeeded or not. -/
structure Reading (α : Type) where
  outcome : Except SyntaxError α
  scanner : Scanner

/-- What a scanner is in the middle of. -/
inductive ScanState where
  | base
  | text
  | escape
  | number
  | symbol
  deriving DecidableEq

namespace Scanner

/-- A scanner at the start of a text. -/
def ofText (text : String) : Scanner := { rest := text.toList }

/-- Whether a character can go on a number. -/
def isNumberChar (c : Char) : Bool :=
  c.isDigit || c == '.' || c == 'e' || c == 'E' || c == '+' || c == '-'

/-- Whether a number starts at a character: a digit does, and so does a minus sign directly
before one. -/
def startsNumber (c : Char) (rest : List Char) : Bool :=
  c.isDigit || (c == '-' && (rest.head?.map Char.isDigit).getD false)

/-- Whether a character ends a number or a symbol. -/
def endsAtom (c : Char) : Bool := Text.isBlank c || c == ')'

/-- The token for the characters from `start` up to `stop`. -/
def tokenUpTo (lexeme : Lexeme) (start stop : Position) : Token :=
  ⟨lexeme, start, stop.offset - start.offset⟩

/-- The lexeme that a finished number or symbol makes, if it makes one. -/
def atom? (state : ScanState) (raw : List Char) : Option Lexeme :=
  match state with
  | .number => (Numeral.read? raw).map fun n => .number n.value
  | _ => some (.symbol (String.ofList raw))

/-- The scanner after the character that ends an atom: a parenthesis is kept as a token. -/
def afterAtom (c : Char) (here : Position) (rest : List Char) : Scanner :=
  if c = ')' then ⟨rest, here.advance c, some ⟨.closeParen, here, 1⟩⟩
  else ⟨rest, here.advance c, none⟩

/-- The malformed number that starts at a place. -/
def malformed (raw : List Char) (start : Position) : SyntaxError :=
  ⟨.malformedNumber (String.ofList raw), start.line, start.column, raw.length⟩

/-- Scan from a state. The buffer holds the characters of the unfinished token in reverse
order, `start` the place it starts at, and `here` the place of the next character. -/
def scan (state : ScanState) (buffer : List Char) (start here : Position) :
    List Char → Reading (Option Token)
  | [] =>
    let finished : Scanner := ⟨[], here, none⟩
    match state with
    | .base => ⟨.ok none, finished⟩
    | .text => ⟨.error ⟨.unterminatedText, start.line, start.column,
        here.offset - start.offset⟩, finished⟩
    | .escape => ⟨.error ⟨.unterminatedText, start.line, start.column,
        here.offset - start.offset⟩, finished⟩
    | state =>
      match atom? state buffer.reverse with
      | some lexeme => ⟨.ok (some (tokenUpTo lexeme start here)), finished⟩
      | none => ⟨.error (malformed buffer.reverse start), finished⟩
  | c :: rest =>
    let next := here.advance c
    match state with
    | .base =>
      if Text.isBlank c then scan .base [] next next rest
      else if c = '(' then ⟨.ok (some ⟨.openParen, here, 1⟩), ⟨rest, next, none⟩⟩
      else if c = ')' then ⟨.ok (some ⟨.closeParen, here, 1⟩), ⟨rest, next, none⟩⟩
      else if c = '"' then scan .text [] here next rest
      else if startsNumber c rest then scan .number [c] here next rest
      else scan .symbol [c] here next rest
    | .text =>
      if c = '\\' then scan .escape buffer start next rest
      else if c = '"' then
        ⟨.ok (some (tokenUpTo (.text (String.ofList buffer.reverse)) start next)),
          ⟨rest, next, none⟩⟩
      else scan .text (c :: buffer) start next rest
    | .escape => scan .text (c :: buffer) start next rest
    | .number =>
      if isNumberChar c then scan .number (c :: buffer) start next rest
      else if endsAtom c then
        match atom? .number buffer.reverse with
        | some lexeme => ⟨.ok (some (tokenUpTo lexeme start here)), afterAtom c here rest⟩
        | none => ⟨.error (malformed buffer.reverse start), ⟨c :: rest, here, none⟩⟩
      else ⟨.error (.atPosition .unexpectedCharacter here), ⟨c :: rest, here, none⟩⟩
    | .symbol =>
      if endsAtom c then
        ⟨.ok (some (tokenUpTo (.symbol (String.ofList buffer.reverse)) start here)),
          afterAtom c here rest⟩
      else scan .symbol (c :: buffer) start next rest

/-- The next token; there is none at the end of the text. -/
def next (s : Scanner) : Reading (Option Token) :=
  match s.pending with
  | some t => ⟨.ok (some t), { s with pending := none }⟩
  | none => scan .base [] s.position s.position s.rest

/-- The character after the next one, if there is one. -/
def peekChar? (s : Scanner) : Option Char := s.rest[1]?

/-- How much a scanner still has to yield: the characters left to read, and a kept token. -/
def remaining (s : Scanner) : Nat := s.rest.length + s.pending.toList.length

/-- What is left after the end of an atom is what was left at it. -/
theorem remaining_afterAtom (c : Char) (here : Position) (rest : List Char) :
    (afterAtom c here rest).remaining ≤ rest.length + 1 := by
  unfold afterAtom
  split <;> simp [remaining]

/-- Scanning never adds to what is left. -/
theorem remaining_scan_le (state : ScanState) (buffer : List Char) (start here : Position)
    (text : List Char) : (scan state buffer start here text).scanner.remaining ≤ text.length := by
  induction text generalizing state buffer start here with
  | nil =>
    cases state with
    | base => simp [scan, remaining]
    | text => simp [scan, remaining]
    | escape => simp [scan, remaining]
    | number => simp only [scan]; split <;> simp [remaining]
    | symbol => simp only [scan]; split <;> simp [remaining]
  | cons c rest ih =>
    have hrest := fun state buffer start =>
      Nat.le_succ_of_le (ih state buffer start (here.advance c))
    have hatom := remaining_afterAtom c here rest
    cases state with
    | base =>
      simp only [scan]
      split
      · exact hrest _ _ _
      split
      · simp [remaining]
      split
      · simp [remaining]
      split
      · exact hrest _ _ _
      split <;> exact hrest _ _ _
    | text =>
      simp only [scan]
      split
      · exact hrest _ _ _
      split
      · simp [remaining]
      · exact hrest _ _ _
    | escape => exact hrest _ _ _
    | number =>
      simp only [scan]
      split
      · exact hrest _ _ _
      split
      · split
        · exact hatom
        · simp [remaining]
      · simp [remaining]
    | symbol =>
      simp only [scan]
      split
      · exact hatom
      · exact hrest _ _ _

/-- A token found at the start of scanning leaves strictly less behind. -/
theorem remaining_scan_lt {buffer : List Char} {start here : Position} {text : List Char}
    {t : Token} (h : (scan .base buffer start here text).outcome = .ok (some t)) :
    (scan .base buffer start here text).scanner.remaining < text.length := by
  cases text with
  | nil => simp [scan] at h
  | cons c rest =>
    have hrest := fun state buffer start =>
      Nat.lt_succ_of_le (remaining_scan_le state buffer start (here.advance c) rest)
    unfold scan
    dsimp only
    split
    · exact hrest _ _ _
    split
    · simp [remaining]
    split
    · simp [remaining]
    split
    · exact hrest _ _ _
    split
    · exact hrest _ _ _
    · exact hrest _ _ _

/-- Every token brings the scanner nearer to the end. -/
theorem remaining_next_lt {s : Scanner} {t : Token} (h : s.next.outcome = .ok (some t)) :
    s.next.scanner.remaining < s.remaining := by
  unfold next at h ⊢
  cases hp : s.pending with
  | some kept => simp [remaining, hp]
  | none =>
    simp only [hp] at h ⊢
    simpa [remaining, hp] using remaining_scan_lt h

/-- Asking for a token never adds to what is left. -/
theorem remaining_next_le (s : Scanner) : s.next.scanner.remaining ≤ s.remaining := by
  unfold next
  cases hp : s.pending with
  | some kept => simp [remaining, hp]
  | none => simpa [remaining, hp] using remaining_scan_le .base [] s.position s.position s.rest

/-- All the tokens up to the end or the first error, with the scanner there. -/
def drain (s : Scanner) : List Token × Option SyntaxError × Scanner :=
  match h : s.next.outcome with
  | .error e => ([], some e, s.next.scanner)
  | .ok none => ([], none, s.next.scanner)
  | .ok (some t) =>
    have := remaining_next_lt h
    let (tokens, error, last) := s.next.scanner.drain
    (t :: tokens, error, last)
termination_by s.remaining

/-- The tokens that asking for the next one brings to light: a kept one is already known,
and a new one comes together with the one it leaves behind. -/
def revealed (s : Scanner) : List Token :=
  match s.pending, s.next.outcome with
  | none, .ok (some t) => t :: s.next.scanner.pending.toList
  | _, _ => []

/-- The tokens brought to light between a scanner and a later stage of it. -/
def revealedUntil (s stop : Scanner) : List Token :=
  if s.position.offset < stop.position.offset then
    match h : s.next.outcome with
    | .ok (some _) =>
      have := remaining_next_lt h
      s.revealed ++ s.next.scanner.revealedUntil stop
    | _ => []
  else []
termination_by s.remaining

end Scanner

end Lisplet
