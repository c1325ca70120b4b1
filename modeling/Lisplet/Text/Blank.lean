import Lisplet.Text.Ranges

/-!
# Blanks

The characters that separate words: the ASCII blanks with the four information separators,
the next-line control, and the Unicode spaces and separators.
-/

namespace Lisplet.Text

/-- The code points that count as blank. -/
def blankRanges : Ranges := [
   (0x0009, 0x000D), (0x001C, 0x0020), (0x0085, 0x0085), (0x00A0, 0x00A0), (0x1680, 0x1680),
   (0x2000, 0x200A), (0x2028, 0x2029), (0x202F, 0x202F), (0x205F, 0x205F), (0x3000, 0x3000)]

/-- Whether a character separates words. -/
def isBlank (c : Char) : Bool := blankRanges.has c

/-- The characters left when those satisfying the test are taken off both ends. -/
def trimWhere (test : Char → Bool) (text : List Char) : List Char :=
  ((text.dropWhile test).reverse.dropWhile test).reverse

/-- A text without the blanks at its ends. -/
def trim (text : String) : String := String.ofList (trimWhere isBlank text.toList)

end Lisplet.Text
