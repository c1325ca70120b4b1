/-!
# Positions in a text

A position is the number of characters before it, with the line and column it falls on. Only
the line feed ends a line.
-/

namespace Lisplet

/-- A place in a text, by characters before it and by line and column, all from zero. -/
structure Position where
  offset : Nat := 0
  line : Nat := 0
  column : Nat := 0
  deriving DecidableEq

namespace Position

/-- The position after one more character. -/
def advance (p : Position) (c : Char) : Position :=
  if c = '\n' then ⟨p.offset + 1, p.line + 1, 0⟩ else ⟨p.offset + 1, p.line, p.column + 1⟩

/-- The position after more characters. -/
def advanceOver (p : Position) (text : List Char) : Position := text.foldl advance p

/-- Every character counts once towards the offset. -/
@[simp] theorem offset_advance (p : Position) (c : Char) :
    (p.advance c).offset = p.offset + 1 := by
  unfold advance
  split <;> rfl

/-- Passing over nothing leaves a position where it is. -/
@[simp] theorem advanceOver_nil (p : Position) : p.advanceOver [] = p := rfl

/-- A text is passed over from its first character on. -/
@[simp] theorem advanceOver_cons (p : Position) (c : Char) (rest : List Char) :
    p.advanceOver (c :: rest) = (p.advance c).advanceOver rest := rfl

/-- The offset grows by the length of what is passed over. -/
@[simp] theorem offset_advanceOver (p : Position) (text : List Char) :
    (p.advanceOver text).offset = p.offset + text.length := by
  induction text generalizing p with
  | nil => rfl
  | cons c rest ih =>
    rw [advanceOver_cons, ih, offset_advance, List.length_cons]
    omega

/-- Passing over two texts in turn is passing over both at once. -/
theorem advanceOver_append (p : Position) (a b : List Char) :
    p.advanceOver (a ++ b) = (p.advanceOver a).advanceOver b :=
  List.foldl_append

end Position

end Lisplet
