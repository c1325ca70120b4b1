/-!
# Rounding to 53 significant bits

Magnitudes are counted in units of `2 ^ -1074`, the least positive double, so that every
finite double is a whole number of units and no exponent has to be carried along. Rounding
a quotient keeps its 53 leading bits, or whole units when the quotient is small; a half goes
to the even neighbour. The main statements are that the result is divisible by its own last
place, that representable magnitudes are left alone, and that only the quotient matters and
not how it is written. Powers are written with `Nat.pow`, so that they mean the same whatever
algebra is in scope.
-/

namespace Lisplet

/-- The whole number nearest to a quotient; a half goes to the even neighbour. -/
def roundHalfEven (num den : Nat) : Nat :=
  let below := num / den
  let rest := num % den
  if 2 * rest < den ∨ (2 * rest = den ∧ below % 2 = 0) then below else below + 1

/-- Rounding to nearest leaves the floor or moves up by one. -/
theorem roundHalfEven_eq (num den : Nat) :
    roundHalfEven num den = num / den ∨ roundHalfEven num den = num / den + 1 := by
  unfold roundHalfEven
  dsimp only
  split <;> simp

/-- A whole quotient is its own rounding. -/
theorem roundHalfEven_mul (n : Nat) {den : Nat} (h : 0 < den) :
    roundHalfEven (n * den) den = n := by
  simp [roundHalfEven, Nat.mul_div_cancel n h, h]

/-- Equal quotients written differently round alike. -/
theorem roundHalfEven_scale {k : Nat} (hk : 0 < k) (num den : Nat) :
    roundHalfEven (k * num) (k * den) = roundHalfEven num den := by
  unfold roundHalfEven
  simp only [Nat.mul_div_mul_left num den hk, Nat.mul_mod_mul_left]
  have h1 : 2 * (k * (num % den)) < k * den ↔ 2 * (num % den) < den := by
    rw [Nat.mul_left_comm]; exact Nat.mul_lt_mul_left hk
  have h2 : 2 * (k * (num % den)) = k * den ↔ 2 * (num % den) = den := by
    rw [Nat.mul_left_comm]; exact Nat.mul_right_inj (Nat.pos_iff_ne_zero.1 hk)
  simp only [h1, h2]

namespace Binary64

/-- The place value, as a power of two, of the last of the 53 significant bits of a magnitude. -/
def lastPlace (units : Nat) : Nat := units.log2 - 52

/-- One more than every magnitude that a finite double can have. -/
def limit : Nat := Nat.pow 2 2098

/-- A magnitude is representable when its last place divides it and it is below the limit. -/
def Representable (units : Nat) : Prop := Nat.pow 2 (lastPlace units) ∣ units ∧ units < limit

instance (units : Nat) : Decidable (Representable units) :=
  inferInstanceAs (Decidable (_ ∧ _))

/-- The quotient rounded to 53 significant bits, or to a whole unit where that is coarser. -/
def roundToPlace (num den : Nat) : Nat :=
  let place := Nat.pow 2 (lastPlace (num / den))
  roundHalfEven num (den * place) * place

/-- Rounding yields a magnitude that its own last place divides. -/
theorem lastPlace_dvd_roundToPlace (num den : Nat) :
    Nat.pow 2 (lastPlace (roundToPlace num den)) ∣ roundToPlace num den := by
  unfold roundToPlace
  simp only [Nat.pow_eq]
  generalize hp : lastPlace (num / den) = p
  generalize ht : roundHalfEven num (den * 2 ^ p) = t
  have hq : num / (den * 2 ^ p) = num / den / 2 ^ p := (Nat.div_div_eq_div_mul ..).symm
  have hle : t ≤ 2 ^ 53 := by
    have h1 : num / den / 2 ^ p < 2 ^ 53 := by
      rw [Nat.div_lt_iff_lt_mul (Nat.two_pow_pos p), ← Nat.pow_add]
      refine Nat.lt_of_lt_of_le Nat.lt_log2_self (Nat.pow_le_pow_right (by decide) ?_)
      unfold lastPlace at hp
      omega
    rcases roundHalfEven_eq num (den * 2 ^ p) with h | h <;> omega
  rcases Nat.lt_or_eq_of_le hle with hlt | heq
  · refine Nat.dvd_trans (Nat.pow_dvd_pow 2 ?_) (Nat.dvd_mul_left _ _)
    by_cases h0 : t * 2 ^ p = 0
    · simp [h0, lastPlace]
    · have : (t * 2 ^ p).log2 < 53 + p := by
        rw [Nat.log2_lt h0, Nat.pow_add]
        exact Nat.mul_lt_mul_of_pos_right hlt (Nat.two_pow_pos p)
      unfold lastPlace
      omega
  · rw [heq, ← Nat.pow_add]
    refine Nat.pow_dvd_pow 2 ?_
    simp [lastPlace, Nat.log2_two_pow]

/-- A magnitude that its last place divides is its own rounding. -/
theorem roundToPlace_of_dvd {units den : Nat} (h : Nat.pow 2 (lastPlace units) ∣ units)
    (hd : 0 < den) :
    roundToPlace (units * den) den = units := by
  unfold roundToPlace
  simp only [Nat.mul_div_cancel units hd]
  have hp : 0 < Nat.pow 2 (lastPlace units) := Nat.two_pow_pos _
  obtain ⟨k, hk⟩ := h
  generalize Nat.pow 2 (lastPlace units) = place at *
  subst hk
  rw [Nat.mul_comm place k, Nat.mul_assoc, Nat.mul_comm place den,
    roundHalfEven_mul k (Nat.mul_pos hd hp)]

/-- Equal quotients written differently round alike. -/
theorem roundToPlace_scale {k : Nat} (hk : 0 < k) (num den : Nat) :
    roundToPlace (k * num) (k * den) = roundToPlace num den := by
  unfold roundToPlace
  simp only [Nat.mul_div_mul_left num den hk, Nat.mul_assoc, roundHalfEven_scale hk]

end Binary64

end Lisplet
