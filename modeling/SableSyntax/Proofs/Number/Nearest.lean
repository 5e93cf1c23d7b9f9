/- SableSyntax/Proofs/Number/Nearest
   digest: Rounding gives the nearest number, the even one of two, and overflows at a midpoint. -/

import SableSyntax.Proofs.Number.Rounding
import Mathlib.Order.Monotone.Basic

set_option autoImplicit false
set_option relaxedAutoImplicit false

namespace SableSyntax

def distance (a b : Nat) : Nat := (a - b) + (b - a)

/-- The rounded quotient is off by half the denominator at most, and it is even where it is off by
just that. -/
theorem distance_roundDiv_mul {den : Nat} (num : Nat) (pos : 0 < den) :
    2 * distance num (roundDiv num den * den) ≤ den ∧
      (2 * distance num (roundDiv num den * den) = den → roundDiv num den % 2 = 0) := by
  have parts := Nat.div_add_mod' num den
  have less := Nat.mod_lt num pos
  have above : (num / den + 1) * den = num / den * den + den := Nat.succ_mul _ _
  unfold roundDiv distance
  split
  · omega
  · rw [above]
    omega

/-- No multiple of the denominator is nearer than that of the rounded quotient, and another one is
as near only where the rounded quotient is even. -/
theorem roundDiv_nearest {den : Nat} (num : Nat) (pos : 0 < den) (other : Nat) :
    distance num (roundDiv num den * den) ≤ distance num (other * den) ∧
      (other ≠ roundDiv num den →
        distance num (other * den) = distance num (roundDiv num den * den) →
        roundDiv num den % 2 = 0) := by
  obtain ⟨half, tie⟩ := distance_roundDiv_mul num pos
  generalize roundDiv num den = quotient at half tie
  rcases Nat.lt_trichotomy other quotient with less | rfl | more
  · have apart : other * den + den ≤ quotient * den := by
      rw [← Nat.succ_mul]
      exact Nat.mul_le_mul_right den less
    simp only [distance] at half tie ⊢
    omega
  · simp
  · have apart : quotient * den + den ≤ other * den := by
      rw [← Nat.succ_mul]
      exact Nat.mul_le_mul_right den more
    simp only [distance] at half tie ⊢
    omega

theorem roundDiv_le {num den bound : Nat} (pos : 0 < den) (h : num ≤ bound * den) :
    roundDiv num den ≤ bound := by
  have half := (distance_roundDiv_mul num pos).1
  by_contra more
  have apart := Nat.mul_le_mul_right den (Nat.not_le.1 more)
  rw [Nat.succ_mul] at apart
  simp only [distance] at half
  omega

theorem le_roundDiv {num den bound : Nat} (pos : 0 < den) (h : bound * den ≤ num) :
    bound ≤ roundDiv num den := by
  have half := (distance_roundDiv_mul num pos).1
  by_contra less
  have apart := Nat.mul_le_mul_right den (Nat.not_le.1 less)
  rw [Nat.succ_mul] at apart
  simp only [distance] at half
  omega

namespace Binary64

section Units

theorem units_eq {shift digits : Nat} (small : digits ≤ 2 * fractionCount)
    (normal : shift = 0 ∨ fractionCount ≤ digits) :
    units (shift * fractionCount + digits) = digits * Nat.pow 2 shift := by
  have countPos : 0 < fractionCount := by decide
  by_cases low : digits < fractionCount
  · obtain rfl : shift = 0 := by omega
    rw [Nat.zero_mul, Nat.zero_add, units, if_pos low]
    exact (Nat.mul_one _).symm
  · obtain ⟨fraction, rfl⟩ := Nat.exists_eq_add_of_le (Nat.not_lt.1 low)
    have whole : shift * fractionCount + (fractionCount + fraction) =
        fraction + fractionCount * (shift + 1) := by
      rw [Nat.mul_comm fractionCount, Nat.succ_mul]
      omega
    have large : ¬ fraction + fractionCount * (shift + 1) < fractionCount := by
      rw [Nat.mul_succ]
      omega
    rw [whole, units, if_neg large, Nat.add_mul_mod_self_left, Nat.add_mul_div_left _ _ countPos]
    by_cases full : fraction = fractionCount
    · -- One digit more than there are is the first number with the next power of two.
      subst full
      rw [Nat.mod_self, Nat.div_self countPos, show 1 + (shift + 1) - 1 = shift + 1 by omega,
        show Nat.pow 2 (shift + 1) = Nat.pow 2 shift * 2 from rfl]
      rw [Nat.add_zero, Nat.add_mul, Nat.mul_comm (Nat.pow 2 shift), ← Nat.mul_assoc, Nat.mul_two,
        Nat.add_mul]
    · have below : fraction < fractionCount := by omega
      rw [Nat.mod_eq_of_lt below, Nat.div_eq_of_lt below, Nat.zero_add, Nat.add_sub_cancel]

theorem exists_shift (magnitude : Nat) : ∃ shift digits,
    magnitude = shift * fractionCount + digits ∧ digits < 2 * fractionCount ∧
      (shift = 0 ∨ fractionCount ≤ digits) := by
  have countPos : 0 < fractionCount := by decide
  have parts := Nat.div_add_mod' magnitude fractionCount
  have less := Nat.mod_lt magnitude countPos
  cases exponent : magnitude / fractionCount with
  | zero =>
    rw [exponent] at parts
    exact ⟨0, magnitude, by omega, by omega, .inl rfl⟩
  | succ shift =>
    rw [exponent, Nat.succ_mul] at parts
    exact ⟨shift, fractionCount + magnitude % fractionCount, by omega, by omega, .inr (by omega)⟩

theorem units_strictMono : StrictMono units := by
  refine strictMono_nat_of_lt_succ fun magnitude => ?_
  obtain ⟨shift, digits, rfl, small, normal⟩ := exists_shift magnitude
  rw [Nat.add_assoc, units_eq (Nat.le_of_lt small) normal, units_eq small (by omega)]
  exact Nat.mul_lt_mul_of_pos_right (Nat.lt_succ_self _) (Nat.pow_pos (by decide))

theorem shifted_mod_two (shift digits : Nat) :
    (shift * fractionCount + digits) % 2 = digits % 2 := by
  rw [show fractionCount = 2 * Nat.pow 2 51 by decide, Nat.mul_left_comm, Nat.mul_add_mod]

/-- Every number is a multiple of a power of two, or it is below the numbers that have 53 digits
before that power. -/
theorem units_cases (shift magnitude : Nat) :
    (∃ digits, units magnitude = digits * Nat.pow 2 shift) ∨
      (0 < shift ∧ units magnitude < fractionCount * Nat.pow 2 shift) := by
  obtain ⟨fewer, digits, rfl, small, normal⟩ := exists_shift magnitude
  rw [units_eq (Nat.le_of_lt small) normal]
  rcases Nat.lt_or_ge fewer shift with less | coarse
  · obtain ⟨more, rfl⟩ := Nat.exists_eq_add_of_lt less
    refine .inr ⟨by omega, ?_⟩
    calc digits * Nat.pow 2 fewer < 2 * fractionCount * Nat.pow 2 fewer :=
          Nat.mul_lt_mul_of_pos_right small (Nat.pow_pos (by decide))
      _ = fractionCount * Nat.pow 2 (fewer + 1) := by
          rw [show Nat.pow 2 (fewer + 1) = 2 * Nat.pow 2 fewer from Nat.pow_succ', Nat.mul_assoc,
            Nat.mul_left_comm]
      _ ≤ fractionCount * Nat.pow 2 (fewer + more + 1) :=
          Nat.mul_le_mul_left _ (Nat.pow_le_pow_right (by decide) (by omega))
  · obtain ⟨more, rfl⟩ := Nat.exists_eq_add_of_le coarse
    refine .inl ⟨digits * Nat.pow 2 more, ?_⟩
    rw [show Nat.pow 2 (shift + more) = Nat.pow 2 shift * Nat.pow 2 more from Nat.pow_add _ _ _,
      Nat.mul_assoc, Nat.mul_comm (Nat.pow 2 more)]

end Units

/-- Whether a magnitude is the rounding of a fraction: none is nearer, and if another one is as
near, it is even. The magnitudes from infinity on stand for what the numbers would go on with if
there were no bound on exponents. -/
structure RoundsTo (num den magnitude : Nat) : Prop where
  nearest : ∀ other, distance (num * unitDen) (units magnitude * den) ≤
    distance (num * unitDen) (units other * den)
  even : ∀ other, other ≠ magnitude → distance (num * unitDen) (units other * den) =
    distance (num * unitDen) (units magnitude * den) → magnitude % 2 = 0

section Rounding

variable {num den magnitude other : Nat}

theorem RoundsTo.unique (pos : 0 < den) (h : RoundsTo num den magnitude)
    (h' : RoundsTo num den other) : magnitude = other := by
  have apart {low high : Nat} (lower : RoundsTo num den low) (upper : RoundsTo num den high) :
      ¬ low < high := by
    intro less
    have same := Nat.le_antisymm (upper.nearest low) (lower.nearest high)
    have even := lower.even high (by omega) same
    have even' := upper.even low (by omega) same.symm
    -- Between two even numbers there is one that is nearer than both.
    have middle := lower.nearest (low + 1)
    have left := Nat.mul_lt_mul_of_pos_right (units_strictMono (Nat.lt_succ_self low)) pos
    have right := Nat.mul_lt_mul_of_pos_right
      (units_strictMono (show low + 1 < high by omega)) pos
    simp only [distance, Nat.succ_eq_add_one] at same middle left
    omega
  have := apart h h'
  have := apart h' h
  omega

private theorem shifted_bounds (value : Nat) (pos : 0 < den) :
    value ≤ 2 * fractionCount * (den * Nat.pow 2 (Nat.log2 (value / den) - 52)) ∧
      (Nat.log2 (value / den) - 52 = 0 ∨
        fractionCount * (den * Nat.pow 2 (Nat.log2 (value / den) - 52)) ≤ value) := by
  generalize shifted : Nat.log2 (value / den) - 52 = shift
  have scale (count : Nat) : count * (den * Nat.pow 2 shift) = count * Nat.pow 2 shift * den := by
    rw [Nat.mul_comm den, Nat.mul_assoc]
  have power (more : Nat) : Nat.pow 2 (52 + more) = fractionCount * Nat.pow 2 more :=
    Nat.pow_add 2 52 more
  constructor
  · have quotient : value / den < Nat.pow 2 (52 + (shift + 1)) :=
      Nat.lt_of_lt_of_le Nat.lt_log2_self (Nat.pow_le_pow_right (by decide) (by omega))
    rw [power, show Nat.pow 2 (shift + 1) = 2 * Nat.pow 2 shift from Nat.pow_succ',
      ← Nat.mul_assoc, Nat.mul_comm fractionCount] at quotient
    rw [scale]
    exact Nat.le_of_lt ((Nat.div_lt_iff_lt_mul pos).1 quotient)
  · by_cases none : shift = 0
    · exact .inl none
    · have nonzero : value / den ≠ 0 := by
        intro zero
        rw [zero, Nat.log2_zero] at shifted
        omega
      have quotient : Nat.pow 2 (52 + shift) ≤ value / den :=
        (Nat.le_log2 nonzero).1 (by omega)
      rw [power] at quotient
      rw [scale]
      exact .inr ((Nat.le_div_iff_mul_le pos).1 quotient)

/-- Where the binary places in excess are shifted out, the rounded quotient gives the nearest of all
magnitudes, and an even one if another one is as near. -/
private theorem nearest_of_shifted {value shift : Nat} (pos : 0 < den)
    (upper : value ≤ 2 * fractionCount * (den * Nat.pow 2 shift))
    (lower : shift = 0 ∨ fractionCount * (den * Nat.pow 2 shift) ≤ value) (other : Nat) :
    let magnitude := shift * fractionCount + roundDiv value (den * Nat.pow 2 shift)
    distance value (units magnitude * den) ≤ distance value (units other * den) ∧
      (other ≠ magnitude →
        distance value (units other * den) = distance value (units magnitude * den) →
        magnitude % 2 = 0) := by
  have scalePos : 0 < den * Nat.pow 2 shift := Nat.mul_pos pos (Nat.pow_pos (by decide))
  have scale (digits : Nat) :
      digits * Nat.pow 2 shift * den = digits * (den * Nat.pow 2 shift) := by
    rw [Nat.mul_comm den, Nat.mul_assoc]
  have closest := roundDiv_nearest value scalePos
  have same := units_eq (roundDiv_le scalePos upper) (lower.imp_right (le_roundDiv scalePos))
  simp only [same, scale, shifted_mod_two]
  rcases units_cases shift other with ⟨digits, multiple⟩ | ⟨shifts, below⟩
  · rw [multiple, scale]
    refine ⟨(closest digits).1, fun differs => (closest digits).2 fun equal => differs ?_⟩
    exact units_strictMono.injective (by rw [multiple, same, equal])
  · -- The first number with these places is nearer than any with fewer, and no nearer than ours.
    have reached := lower.resolve_left (Nat.ne_of_gt shifts)
    have less := Nat.mul_lt_mul_of_pos_right below pos
    rw [scale] at less
    have first := (closest fractionCount).1
    simp only [distance] at first ⊢
    omega

theorem exists_roundsTo (num : Nat) (pos : 0 < den) :
    ∃ magnitude, RoundsTo num den magnitude ∧ nearest num den = min infinity magnitude := by
  obtain ⟨upper, lower⟩ := shifted_bounds (num * unitDen) pos
  have closest := nearest_of_shifted pos upper lower
  exact ⟨_, ⟨fun other => (closest other).1, fun other => (closest other).2⟩, rfl⟩

/-- The middle between the largest finite number and what would come next, `2 ^ 1024 - 2 ^ 970`. -/
def overflow : Nat := (Nat.pow 2 54 - 1) * Nat.pow 2 970

private theorem units_add_units {exponent places more : Nat} (same : exponent = places + more + 1) :
    units (exponent * fractionCount + (2 * fractionCount - 1)) +
      units (exponent * fractionCount + 2 * fractionCount) =
    2 * ((Nat.pow 2 54 - 1) * Nat.pow 2 places * Nat.pow 2 more) := by
  have digits : 2 * fractionCount - 1 + 2 * fractionCount = Nat.pow 2 54 - 1 := by decide
  have power : Nat.pow 2 exponent = Nat.pow 2 places * Nat.pow 2 more * 2 := by
    rw [same]
    exact congrArg (· * 2) (Nat.pow_add 2 places more)
  rw [units_eq (Nat.sub_le _ _) (.inr (by decide)), units_eq (Nat.le_refl _) (.inr (by decide)),
    ← Nat.add_mul, digits, power, ← Nat.mul_assoc, ← Nat.mul_assoc, Nat.mul_comm]

private theorem units_around_overflow :
    units (infinity - 1) + units infinity = 2 * (overflow * unitDen) := by
  have last : infinity - 1 = 2045 * fractionCount + (2 * fractionCount - 1) := by decide
  have next : infinity = 2045 * fractionCount + 2 * fractionCount := by decide
  rw [last, next]
  unfold overflow unitDen
  generalize few : 1074 = more
  generalize place : 970 = places
  exact units_add_units (by omega)

/-- The rounding of a fraction is finite below the middle between the largest finite number and what
would come next; that middle itself is as near to the next one, which is even. -/
theorem RoundsTo.infinity_le_iff (pos : 0 < den) (h : RoundsTo num den magnitude) :
    infinity ≤ magnitude ↔ overflow * den ≤ num := by
  have middle := congrArg (· * den) units_around_overflow
  have odd : (infinity - 1) % 2 = 1 := by decide
  have scaled : overflow * den ≤ num ↔ overflow * unitDen * den ≤ num * unitDen := by
    rw [Nat.mul_right_comm]
    exact (Nat.mul_le_mul_right_iff unitDen_pos).symm
  have less : units (infinity - 1) * den < units infinity * den :=
    Nat.mul_lt_mul_of_pos_right (units_strictMono (by decide)) pos
  simp only [Nat.add_mul, Nat.mul_assoc 2] at middle
  rw [scaled]
  constructor
  · intro above
    have least := Nat.mul_le_mul_right den (units_strictMono.monotone above)
    have near := h.nearest (infinity - 1)
    simp only [distance] at near
    omega
  · intro large
    by_contra below
    have most := Nat.mul_le_mul_right den
      (units_strictMono.monotone (show magnitude ≤ infinity - 1 by omega))
    have near := h.nearest infinity
    have tie := h.even infinity (by omega)
    simp only [distance] at near tie
    have equal : units magnitude * den = units (infinity - 1) * den := by omega
    have same := units_strictMono.injective (Nat.eq_of_mul_eq_mul_right pos equal)
    omega

end Rounding

end Binary64

end SableSyntax
