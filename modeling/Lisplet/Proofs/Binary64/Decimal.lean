import Lisplet.Binary64.Decimal
import Mathlib.Data.Nat.Notation

/-!
# The double of a decimal

A decimal denotes the double nearest to its exact value. The bounds beyond which no power of ten
is formed do not show: past them the nearest double is a zero or an infinity anyway. So two
decimals of equal value denote the same double, however they are written.
-/

namespace Lisplet.Binary64

/-- Less than half a unit is rounded to nothing. -/
theorem roundToPlace_eq_zero {num den : ℕ} (h : 2 * num < den) : roundToPlace num den = 0 := by
  have hbelow : num / den = 0 := Nat.div_eq_of_lt (by omega)
  have hplace : Nat.pow 2 (lastPlace 0) = 1 := by decide
  rw [roundToPlace, hbelow, hplace]
  simp [roundHalfEven, hbelow, Nat.mod_eq_of_lt (show num < den by omega), h]

/-- A whole number is not rounded below its leading bit. -/
theorem pow_log2_le_roundToPlace {num : ℕ} (h : num ≠ 0) :
    Nat.pow 2 num.log2 ≤ roundToPlace num 1 := by
  have hsplit : Nat.pow 2 num.log2 =
      Nat.pow 2 (num.log2 - lastPlace num) * Nat.pow 2 (lastPlace num) := by
    simp only [Nat.pow_eq, ← Nat.pow_add]
    congr 1
    unfold lastPlace
    omega
  rw [roundToPlace, Nat.div_one, Nat.one_mul, hsplit]
  apply Nat.mul_le_mul_right
  have hfloor : Nat.pow 2 (num.log2 - lastPlace num) ≤ num / Nat.pow 2 (lastPlace num) := by
    have hplace : 0 < Nat.pow 2 (lastPlace num) := Nat.two_pow_pos _
    rw [Nat.le_div_iff_mul_le hplace, ← hsplit]
    exact Nat.log2_self_le h
  obtain heq | heq := roundHalfEven_eq num (Nat.pow 2 (lastPlace num)) <;> omega

/-- A whole number is not rounded below a power of two that it reaches. -/
theorem pow_le_roundToPlace {num k : ℕ} (h : Nat.pow 2 k ≤ num) :
    Nat.pow 2 k ≤ roundToPlace num 1 := by
  have hpos : 0 < Nat.pow 2 k := Nat.two_pow_pos k
  have hne : num ≠ 0 := by omega
  calc Nat.pow 2 k ≤ Nat.pow 2 num.log2 :=
        Nat.pow_le_pow_right (by decide) ((Nat.le_log2 hne).mpr h)
    _ ≤ roundToPlace num 1 := pow_log2_le_roundToPlace hne

/-- The double nearest to less than half a unit is zero. -/
theorem nearest_of_small (negative : Bool) {num den : ℕ} (h : 2 * num < den) :
    nearest negative num den = zero negative := by
  have hlimit : 0 < limit := by decide +kernel
  simp only [nearest, roundToPlace_eq_zero h, hlimit, dite_true, zero]

/-- The double nearest to a whole number that is not below the limit is infinite. -/
theorem nearest_of_large (negative : Bool) {num : ℕ} (h : limit ≤ num) :
    nearest negative num 1 = .infinite negative := by
  obtain ⟨k, hlimit⟩ : ∃ k, limit = Nat.pow 2 k := ⟨2098, by decide +kernel⟩
  have hround : ¬ roundToPlace num 1 < limit := by
    rw [hlimit] at h ⊢
    exact Nat.not_lt.mpr (pow_le_roundToPlace h)
  rw [nearest, dif_neg hround]

/-- Equal quotients have the same nearest double. -/
theorem nearest_congr (negative : Bool) {num den num' den' : ℕ} (hden : 0 < den)
    (hden' : 0 < den') (h : num * den' = num' * den) :
    nearest negative num den = nearest negative num' den' := by
  rw [← nearest_scale negative hden' num den, ← nearest_scale negative hden num' den',
    Nat.mul_comm den' num, h, Nat.mul_comm den num', Nat.mul_comm den' den]

/-- A decimal with a large exponent is not below the limit. -/
theorem limit_le_of_large {digits k : ℕ} (hdigits : digits ≠ 0) (hk : 310 < k) :
    limit ≤ digits * Nat.pow 10 k * unitsPerOne := by
  have hlimit : limit = Nat.pow 2 1024 * unitsPerOne := by decide +kernel
  obtain ⟨least, hleast, hpower⟩ : ∃ least ≤ k, Nat.pow 2 1024 ≤ Nat.pow 10 least :=
    ⟨311, hk, by decide +kernel⟩
  rw [hlimit]
  apply Nat.mul_le_mul_right
  calc Nat.pow 2 1024 ≤ Nat.pow 10 least := hpower
    _ ≤ Nat.pow 10 k := Nat.pow_le_pow_right (by decide) hleast
    _ ≤ digits * Nat.pow 10 k := Nat.le_mul_of_pos_left _ (Nat.pos_of_ne_zero hdigits)

/-- A number is less than the power of two above its leading bit, also in smaller units. -/
theorem double_mul_pow_lt (n k : ℕ) :
    2 * (n * Nat.pow 2 k) < Nat.pow 2 (n.log2 + (k + 2)) := by
  have hn : n < Nat.pow 2 (n.log2 + 1) := Nat.lt_log2_self
  have hk : 0 < Nat.pow 2 k := Nat.two_pow_pos k
  calc 2 * (n * Nat.pow 2 k) < 2 * (Nat.pow 2 (n.log2 + 1) * Nat.pow 2 k) :=
        Nat.mul_lt_mul_of_pos_left (Nat.mul_lt_mul_of_pos_right hn hk) (by decide)
    _ = Nat.pow 2 (n.log2 + (k + 2)) := by
        simp only [Nat.pow_eq, ← Nat.pow_add, ← Nat.pow_succ']
        congr 1
        omega

/-- A decimal with a small exponent is less than half a unit. -/
theorem small_of_log2_lt {digits k : ℕ} (h : digits.log2 + 1080 < 3 * k) :
    2 * (digits * unitsPerOne) < Nat.pow 10 k := by
  obtain ⟨bits, hunits, hbits⟩ : ∃ bits, unitsPerOne = Nat.pow 2 bits ∧ bits ≤ 1074 :=
    ⟨1074, by decide +kernel, Nat.le_refl _⟩
  rw [hunits]
  calc 2 * (digits * Nat.pow 2 bits) < Nat.pow 2 (digits.log2 + (bits + 2)) :=
        double_mul_pow_lt digits bits
    _ ≤ Nat.pow 2 (3 * k) := Nat.pow_le_pow_right (by decide) (by omega)
    _ = Nat.pow 8 k := Nat.pow_mul ..
    _ ≤ Nat.pow 10 k := Nat.pow_le_pow_left (by decide) k

/-- A decimal denotes the double nearest to its value. -/
theorem ofDecimal_eq_nearest (negative : Bool) (digits : ℕ) (exponent : Int) :
    ofDecimal negative digits exponent =
      nearest negative (digits * Nat.pow 10 exponent.toNat * unitsPerOne)
        (Nat.pow 10 (-exponent).toNat) := by
  cases exponent with
  | ofNat k =>
    have hpositive : (Int.ofNat k).toNat = k := rfl
    have hnegative : (-(Int.ofNat k)).toNat = 0 := by simp
    rw [ofDecimal, hpositive, hnegative]
    split
    · next hzero =>
      rw [hzero, Nat.zero_mul, Nat.zero_mul]
      exact (nearest_of_small negative (by decide)).symm
    · next hdigits =>
      split
      · next hk => exact (nearest_of_large negative (limit_le_of_large hdigits hk)).symm
      · rfl
  | negSucc k =>
    have hpositive : (Int.negSucc k).toNat = 0 := rfl
    have hnegative : (-(Int.negSucc k)).toNat = k + 1 := by omega
    have hone : digits * Nat.pow 10 0 = digits := Nat.mul_one digits
    rw [ofDecimal, hpositive, hnegative, hone]
    split
    · next hk => exact (nearest_of_small negative (small_of_log2_lt hk)).symm
    · rfl

/-- Decimals of equal value denote the same double. -/
theorem ofDecimal_congr (negative : Bool) {digits digits' : ℕ} {exponent exponent' : Int}
    (h : digits * Nat.pow 10 exponent.toNat * Nat.pow 10 (-exponent').toNat =
      digits' * Nat.pow 10 exponent'.toNat * Nat.pow 10 (-exponent).toNat) :
    ofDecimal negative digits exponent = ofDecimal negative digits' exponent' := by
  have hpower (k : ℕ) : 0 < Nat.pow 10 k := Nat.pow_pos (by decide)
  rw [ofDecimal_eq_nearest, ofDecimal_eq_nearest]
  apply nearest_congr negative (hpower _) (hpower _)
  rw [Nat.mul_right_comm, h, Nat.mul_right_comm]

/-- Zeros behind the digits of a decimal make up for a smaller exponent. -/
theorem ofDecimal_mul_pow (negative : Bool) (digits zeros : ℕ) (exponent : Int) :
    ofDecimal negative (digits * Nat.pow 10 zeros) (exponent - zeros) =
      ofDecimal negative digits exponent := by
  apply ofDecimal_congr
  have hpower : zeros + (exponent - zeros).toNat + (-exponent).toNat =
      exponent.toNat + (-(exponent - zeros)).toNat := by omega
  simp only [Nat.pow_eq, Nat.mul_assoc, ← Nat.pow_add]
  rw [← hpower, Nat.add_assoc]

/-- The double of a decimal with a minus sign is the other one with its sign changed. -/
theorem ofDecimal_true (digits : ℕ) (exponent : Int) :
    ofDecimal true digits exponent = (ofDecimal false digits exponent).negate := by
  rw [ofDecimal_eq_nearest, ofDecimal_eq_nearest, nearest, nearest]
  split <;> rfl

end Lisplet.Binary64
