import Lisplet.Binary64.Basic

/-!
# Doubles from decimals

A decimal is a whole number of digits times a power of ten. Its double is the one nearest to
the exact value, and exponents far outside the range are settled without building the power
of ten. The exact decimal expansion of a finite double always reads back to it, because two
divides ten.
-/

namespace Lisplet.Binary64

/-- The double nearest to `digits * 10 ^ exponent` with the given sign. -/
def ofDecimal (negative : Bool) (digits : Nat) : Int → Binary64
  | .ofNat k =>
    if digits = 0 then zero negative
    else if 310 < k then .infinite negative
    else nearest negative (digits * Nat.pow 10 k * unitsPerOne) 1
  | .negSucc k =>
    if digits.log2 + 1080 < 3 * (k + 1) then zero negative
    else nearest negative (digits * unitsPerOne) (Nat.pow 10 (k + 1))

/-- The digits of a magnitude's exact expansion, to be scaled by `10 ^ -1074`. -/
def exactDigits (units : Nat) : Nat := units * Nat.pow 5 1074

end Lisplet.Binary64
