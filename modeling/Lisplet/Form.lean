import Lisplet.Scanner

/-!
# Reading forms

A program is a sequence of lists, its forms. The items of a list are atoms and lists; while a
list is being read the lists around it wait on a stack, each with the items it has so far in
reverse order. A list may be opened only below the nesting limit. Forms are read one at a
time and nothing after a form is looked at before it is handed over.
-/

namespace Lisplet.Form

/-- A token of the wanted kind. A missing token is reported at the place given. -/
def expect (wanted : TokenKind) (here : Position) : Option Token → Except SyntaxError Token
  | none => .error (.atPosition (.expected wanted none) here)
  | some t =>
    if t.kind = wanted then .ok t else .error (.atToken (.expected wanted (some t.kind)) t)

/-- The items of a list, from the order in which they were put aside. -/
def inOrder (items : List Value) : List Value := items.reverse

/-- The items of a list up to its closing parenthesis, given its own depth of nesting, the
lists that wait for it, and the items already read, the last one first. -/
def readItems (limit depth : Int) (waiting : List (List Value)) (items : List Value)
    (s : Scanner) : Reading (List Value) :=
  match h : s.next.outcome with
  | .error e => ⟨.error e, s.next.scanner⟩
  | .ok none => ⟨.error (.atPosition .unclosed s.next.scanner.position), s.next.scanner⟩
  | .ok (some t) =>
    have := Scanner.remaining_next_lt h
    match t.lexeme with
    | .closeParen =>
      match waiting with
      | [] => ⟨.ok (inOrder items), s.next.scanner⟩
      | outer :: more =>
        readItems limit (depth - 1) more (.list (inOrder items) :: outer) s.next.scanner
    | .openParen =>
      if limit ≤ depth then ⟨.error (.atToken .nestedTooDeeply t), s.next.scanner⟩
      else readItems limit (depth + 1) (items :: waiting) [] s.next.scanner
    | lexeme => readItems limit depth waiting (lexeme.value :: items) s.next.scanner
termination_by s.remaining

/-- The rest of a list whose opening parenthesis has been read. -/
def readList (limit depth : Int) (s : Scanner) : Reading (List Value) :=
  readItems limit depth [] [] s

/-- The next form, if the text holds one more. -/
def next (limit : Int) (s : Scanner) : Reading (Option (List Value)) :=
  match s.next.outcome with
  | .error e => ⟨.error e, s.next.scanner⟩
  | .ok none => ⟨.ok none, s.next.scanner⟩
  | .ok (some t) =>
    match expect .openParen s.next.scanner.position (some t) with
    | .error e => ⟨.error e, s.next.scanner⟩
    | .ok _ =>
      let r := readList limit 1 s.next.scanner
      ⟨r.outcome.map some, r.scanner⟩

/-- A form after which nothing follows. -/
def alone (r : Reading (List Value)) : Reading (List Value) :=
  match r.outcome with
  | .error _ => r
  | .ok items =>
    match r.scanner.next.outcome with
    | .error e => ⟨.error e, r.scanner.next.scanner⟩
    | .ok none => ⟨.ok items, r.scanner.next.scanner⟩
    | .ok (some t) => ⟨.error (.atToken .trailingInput t), r.scanner.next.scanner⟩

/-- The only form of a text. -/
def only (limit : Int) (s : Scanner) : Reading (List Value) :=
  match s.next.outcome with
  | .error e => ⟨.error e, s.next.scanner⟩
  | .ok first =>
    match expect .openParen s.next.scanner.position first with
    | .error e => ⟨.error e, s.next.scanner⟩
    | .ok _ => alone (readList limit 1 s.next.scanner)

/-- Reading the items of a list never adds to what is left. -/
theorem remaining_readItems_le (limit depth : Int) (waiting : List (List Value))
    (items : List Value) (s : Scanner) :
    (readItems limit depth waiting items s).scanner.remaining ≤ s.remaining := by
  fun_induction readItems limit depth waiting items s with
  | case1 => exact Scanner.remaining_next_le _
  | case2 => exact Scanner.remaining_next_le _
  | case3 => exact Scanner.remaining_next_le _
  | case4 => omega
  | case5 => exact Scanner.remaining_next_le _
  | case6 => omega
  | case7 => omega

/-- Every form brings the scanner nearer to the end. -/
theorem remaining_next_lt {limit : Int} {s : Scanner} {items : List Value}
    (h : (next limit s).outcome = .ok (some items)) :
    (next limit s).scanner.remaining < s.remaining := by
  unfold next at h ⊢
  dsimp only at h ⊢
  split at h
  · cases h
  · cases h
  · next t ht =>
    split at h
    · cases h
    · next h' => simpa [h', readList] using
        Nat.lt_of_le_of_lt (remaining_readItems_le ..) (Scanner.remaining_next_lt ht)

/-- The forms of a text up to its end or the first error. -/
def drain (limit : Int) (s : Scanner) : List (List Value) × Option SyntaxError :=
  let r := next limit s
  match h : r.outcome with
  | .error e => ([], some e)
  | .ok none => ([], none)
  | .ok (some items) =>
    have := remaining_next_lt h
    let (forms, error) := drain limit r.scanner
    (items :: forms, error)
termination_by s.remaining

/-- The only form of a text, within a nesting limit. -/
def parse (limit : Int) (text : String) : Except SyntaxError (List Value) :=
  (only limit (.ofText text)).outcome

/-- All the forms of a text, within a nesting limit. -/
def parseAll (limit : Int) (text : String) : Except SyntaxError (List (List Value)) :=
  match drain limit (.ofText text) with
  | (forms, none) => .ok forms
  | (_, some e) => .error e

end Lisplet.Form
