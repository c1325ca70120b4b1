import Lisplet.Number
import Mathlib.Algebra.Order.Field.Rat
import Mathlib.Algebra.Order.Ring.Cast
import Mathlib.Order.WithBot

/-!
# Exact values of numbers

A number has an exact value, a rational number or one of the two infinities, unless it is a double
that is not a number. Numbers are compared by counting units of the least double, which comes to
comparing their exact values.
-/

namespace Lisplet

/-- The rational numbers with an infinity at either end. -/
abbrev ExactValue : Type := WithBot (WithTop ℚ)

/-- The rational number that some units of the least double make. -/
def Binary64.ofUnits (n : Int) : ℚ := n / unitsPerOne

/-- The exact value of a number, if it has one. -/
def Number.exactValue? : Number → Option ExactValue
  | .real .nan => none
  | .real (.infinite negative) => some (if negative then ⊥ else ⊤)
  | .real (.finite negative units _) =>
    some (Binary64.ofUnits (Binary64.signed negative units) : WithTop ℚ)
  | .whole n => some ((n : ℚ) : WithTop ℚ)

/-- The exact value that a place on the number line stands for. -/
def Extent.exactValue : Extent → ExactValue
  | .bottom => ⊥
  | .units n => (Binary64.ofUnits n : WithTop ℚ)
  | .top => ⊤

namespace Binary64

/-- There are units in one. -/
theorem unitsPerOne_pos : (0 : ℚ) < unitsPerOne := by
  have hpos : 0 < unitsPerOne := by decide +kernel
  exact_mod_cast hpos

/-- Fewer units make a smaller number. -/
theorem ofUnits_lt {m n : Int} : ofUnits m < ofUnits n ↔ m < n := by
  rw [ofUnits, ofUnits, div_lt_div_iff_of_pos_right unitsPerOne_pos]
  exact Int.cast_lt

/-- Different units make different numbers. -/
theorem ofUnits_inj {m n : Int} : ofUnits m = ofUnits n ↔ m = n := by
  rw [ofUnits, ofUnits, div_left_inj' unitsPerOne_pos.ne']
  exact Rat.intCast_inj

/-- The units of a whole number make that number. -/
theorem ofUnits_mul (n : Int) : ofUnits (n * unitsPerOne) = n := by
  rw [ofUnits, Int.cast_mul, Int.cast_natCast]
  exact mul_div_cancel_right₀ _ unitsPerOne_pos.ne'

end Binary64

/-- The exact value of a number is that of its place. -/
theorem Number.exactValue?_eq (n : Number) : n.exactValue? = n.extent?.map Extent.exactValue := by
  cases n with
  | whole n =>
    rw [exactValue?, extent?, Option.map_some, Extent.exactValue, Binary64.ofUnits_mul]
  | real x =>
    cases x with
    | nan => rfl
    | infinite negative => cases negative <;> rfl
    | finite negative units h => rfl

/-- One place lies below another when it stands for a smaller value. -/
theorem Extent.below_iff {a b : Extent} : a.below b = true ↔ a.exactValue < b.exactValue := by
  cases a with
  | bottom => cases b <;> simp [below, exactValue, bot_lt_iff_ne_bot]
  | top => cases b <;> simp [below, exactValue]
  | units m =>
    cases b with
    | bottom => simp [below, exactValue]
    | units n => simp [below, exactValue, Binary64.ofUnits_lt]
    | top => exact iff_of_true rfl (WithBot.coe_lt_coe.mpr (WithTop.coe_lt_top _))

/-- Places stand for different values. -/
theorem Extent.exactValue_inj {a b : Extent} : a.exactValue = b.exactValue ↔ a = b := by
  cases a <;> cases b <;> simp [exactValue, Binary64.ofUnits_inj]

end Lisplet
