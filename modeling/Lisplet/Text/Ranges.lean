/-!
# Sets of code points

A character class is a list of closed ranges of code points, searched from the front.
-/

namespace Lisplet.Text

/-- A set of code points, as closed ranges. -/
abbrev Ranges := List (Nat × Nat)

/-- Whether a character lies in one of the ranges. -/
def Ranges.has (ranges : Ranges) (c : Char) : Bool :=
  ranges.any fun (low, high) => low ≤ c.toNat && c.toNat ≤ high

end Lisplet.Text
