/- SableSyntax/Proofs/Number/Rounding
   digest: Rounding depends on the value of a fraction only, and gives back every finite number. -/

import SableSyntax.Number.Shortest

set_option autoImplicit false
set_option relaxedAutoImplicit false

namespace SableSyntax

theorem roundDiv_mul_right (num den : Nat) {c : Nat} (pos : 0 < c) :
    roundDiv (num * c) (den * c) = roundDiv num den := by
  have double : 2 * (num % den * c) = 2 * (num % den) * c := (Nat.mul_assoc _ _ _).symm
  simp only [roundDiv, Nat.mul_mod_mul_right, Nat.mul_div_mul_right _ _ pos, double,
    Nat.mul_lt_mul_right pos, Nat.mul_left_inj (Nat.ne_of_gt pos)]

theorem roundDiv_mul_left {den : Nat} (pos : 0 < den) (n : Nat) : roundDiv (n * den) den = n := by
  have := roundDiv_mul_right n 1 pos
  rw [Nat.one_mul] at this
  rw [this]
  simp [roundDiv, Nat.mod_one]

namespace Binary64

private theorem pow_two_pos (n : Nat) : 0 < Nat.pow 2 n := Nat.two_pow_pos n

theorem unitDen_pos : 0 < unitDen := by
  unfold unitDen
  exact pow_two_pos _

theorem nearest_le_infinity (num den : Nat) : nearest num den ≤ infinity := Nat.min_le_left _ _

theorem nearest_mul_right (num den : Nat) {c : Nat} (pos : 0 < c) :
    nearest (num * c) (den * c) = nearest num den := by
  have scaled : num * c * unitDen = num * unitDen * c := Nat.mul_right_comm _ _ _
  simp only [nearest, scaled, Nat.mul_div_mul_right _ _ pos]
  rw [Nat.mul_right_comm den c, roundDiv_mul_right _ _ pos]

theorem nearest_congr {num den num' den' : Nat} (pos : 0 < den) (pos' : 0 < den')
    (same : num * den' = num' * den) : nearest num den = nearest num' den' := by
  rw [← nearest_mul_right num den pos', ← nearest_mul_right num' den' pos, same,
    Nat.mul_comm den den']

private theorem log2_units {fraction exponent : Nat} (small : fraction < fractionCount) :
    Nat.log2 ((fractionCount + fraction) * Nat.pow 2 exponent) = 52 + exponent := by
  have pos := pow_two_pos exponent
  have nonzero : (fractionCount + fraction) * Nat.pow 2 exponent ≠ 0 :=
    Nat.ne_of_gt (Nat.mul_pos (by omega) pos)
  rw [Nat.log2_eq_iff nonzero]
  have power : (2 : Nat) ^ (52 + exponent) = fractionCount * Nat.pow 2 exponent :=
    Nat.pow_add 2 52 _
  have power' : (2 : Nat) ^ (52 + exponent + 1) = (2 * fractionCount) * Nat.pow 2 exponent := by
    rw [Nat.pow_succ, power, Nat.mul_comm, Nat.mul_assoc]
  rw [power, power']
  exact ⟨Nat.mul_le_mul_right _ (by omega), Nat.mul_lt_mul_of_pos_right (by omega) pos⟩

private theorem roundDiv_units (value exponent : Nat) {unit : Nat} (pos : 0 < unit) :
    roundDiv (value * Nat.pow 2 exponent * unit) (unit * Nat.pow 2 exponent) = value := by
  rw [Nat.mul_assoc, Nat.mul_comm _ unit]
  exact roundDiv_mul_left (Nat.mul_pos pos (pow_two_pos exponent)) value

theorem nearest_units {magnitude : Nat} (finite : magnitude < infinity) :
    nearest (units magnitude) unitDen = magnitude := by
  have pos := unitDen_pos
  unfold nearest
  generalize unitDen = unit at pos
  by_cases small : magnitude < fractionCount
  · -- Magnitudes without an exponent count units.
    have log : Nat.log2 magnitude - 52 = 0 := by
      by_cases zero : magnitude = 0
      · simp [zero]
      · have := (Nat.log2_lt zero).2 (show magnitude < 2 ^ 52 from small)
        omega
    have rounded := roundDiv_units magnitude 0 pos
    rw [show magnitude * Nat.pow 2 0 = magnitude from Nat.mul_one _] at rounded
    simp only [units, small, ↓reduceIte, Nat.mul_div_cancel _ pos, log, rounded, Nat.zero_mul,
      Nat.zero_add]
    exact Nat.min_eq_right (Nat.le_of_lt finite)
  · -- Others are shifted so far that 53 digits are left, which are rounded to themselves.
    have countPos : 0 < fractionCount := by decide
    obtain ⟨exponent, whole⟩ : ∃ exponent, magnitude / fractionCount = exponent + 1 :=
      Nat.exists_eq_succ_of_ne_zero (Nat.ne_of_gt (Nat.div_pos (by omega) countPos))
    have parts := Nat.div_add_mod magnitude fractionCount
    have log := @log2_units _ exponent (Nat.mod_lt magnitude countPos)
    have shift : 52 + exponent - 52 = exponent := by omega
    simp only [units, small, ↓reduceIte, whole, Nat.add_sub_cancel, Nat.mul_div_cancel _ pos, log,
      shift, roundDiv_units _ _ pos]
    have sum : exponent * fractionCount + (fractionCount + magnitude % fractionCount) =
        magnitude := by
      rw [← Nat.add_assoc, ← Nat.succ_mul, Nat.mul_comm, Nat.succ_eq_add_one, ← whole]
      exact parts
    rw [sum]
    exact Nat.min_eq_right (Nat.le_of_lt finite)

theorem nearest_zero {den : Nat} (pos : 0 < den) : nearest 0 den = 0 := by
  have units : units 0 = 0 := if_pos (by decide)
  have same : 0 * unitDen = Binary64.units 0 * den := by rw [units, Nat.zero_mul, Nat.zero_mul]
  rw [nearest_congr pos unitDen_pos same]
  exact nearest_units (by decide)

private theorem pow_two_add_units (places : Nat) :
    Nat.pow 2 (places + 1074) = Nat.pow 2 places * unitDen := by
  unfold unitDen
  generalize 1074 = count
  exact Nat.pow_add 2 places count

theorem nearest_of_large {num den places : Nat} (pos : 0 < den) (far : 1025 ≤ places)
    (large : Nat.pow 2 places * den ≤ num) : nearest num den = infinity := by
  have quotient : Nat.pow 2 (places + 1074) ≤ num * unitDen / den := by
    rw [Nat.le_div_iff_mul_le pos]
    calc Nat.pow 2 (places + 1074) * den = Nat.pow 2 places * den * unitDen := by
          rw [pow_two_add_units, Nat.mul_right_comm]
      _ ≤ num * unitDen := Nat.mul_le_mul_right _ large
  have nonzero : num * unitDen / den ≠ 0 :=
    Nat.ne_of_gt (Nat.lt_of_lt_of_le (pow_two_pos _) quotient)
  have log : places + 1074 ≤ Nat.log2 (num * unitDen / den) := (Nat.le_log2 nonzero).2 quotient
  have shift : 2047 ≤ Nat.log2 (num * unitDen / den) - 52 := by omega
  unfold nearest infinity
  exact Nat.min_eq_left (Nat.le_trans (Nat.mul_le_mul_right _ shift) (Nat.le_add_right _ _))

theorem nearest_of_small {num den places : Nat} (below : num < Nat.pow 2 places)
    (small : Nat.pow 2 (places + 1074 + 1) ≤ den) : nearest num den = 0 := by
  have double (n : Nat) : Nat.pow 2 n * 2 = Nat.pow 2 (n + 1) := rfl
  have less : num * unitDen * 2 < den := by
    calc num * unitDen * 2 < Nat.pow 2 places * unitDen * 2 :=
          Nat.mul_lt_mul_of_pos_right (Nat.mul_lt_mul_of_pos_right below unitDen_pos) (by decide)
      _ = Nat.pow 2 (places + 1074 + 1) := by rw [← pow_two_add_units, double]
      _ ≤ den := small
  have quotient : num * unitDen / den = 0 := Nat.div_eq_of_lt (by omega)
  have remainder : num * unitDen % den = num * unitDen := Nat.mod_eq_of_lt (by omega)
  have down : 2 * (num * unitDen) < den := by omega
  have power : den * Nat.pow 2 0 = den := Nat.mul_one den
  simp only [nearest, roundDiv, quotient, Nat.log2_zero, Nat.zero_sub, power, remainder, down,
    true_or, if_true, Nat.zero_mul, Nat.zero_add]
  exact Nat.min_eq_right (Nat.zero_le _)

private theorem nearest_tenths (value places : Nat) :
    nearest (Decimal.num ⟨value * Nat.pow 5 places, -(places : Int)⟩)
      (Decimal.den ⟨value * Nat.pow 5 places, -(places : Int)⟩) =
    nearest value (Nat.pow 2 places) := by
  have none : (-(places : Int)).toNat = 0 := by omega
  have power : Nat.pow 10 places = Nat.pow 5 places * Nat.pow 2 places := Nat.mul_pow 5 2 places
  have num : Decimal.num ⟨value * Nat.pow 5 places, -(places : Int)⟩ =
      value * Nat.pow 5 places := by
    simp only [Decimal.num, none]
    exact Nat.mul_one _
  have den : Decimal.den ⟨value * Nat.pow 5 places, -(places : Int)⟩ = Nat.pow 10 places := by
    simp only [Decimal.den, Int.neg_neg, Int.toNat_natCast]
  rw [num, den]
  refine nearest_congr (Nat.pow_pos (by decide)) (pow_two_pos places) ?_
  rw [power, Nat.mul_assoc]

private theorem readsAs_inFull {magnitude : Nat} (finite : magnitude < infinity) :
    readsAs magnitude (inFull magnitude) := by
  have places : (-1074 : Int) = -((1074 : Nat) : Int) := rfl
  refine beq_iff_eq.2 (Eq.trans ?_ (nearest_units finite))
  rw [inFull, places]
  exact nearest_tenths _ _

private theorem readsAs_zero : readsAs 0 ⟨0, 0⟩ := by
  have num : Decimal.num ⟨0, 0⟩ = 0 := Nat.zero_mul _
  rw [readsAs, beq_iff_eq, num]
  exact nearest_zero (Decimal.den_pos _)

theorem readsAs_of_onGrid? {tie : Tie} {magnitude : Nat} {exponent : Int} {d : Decimal}
    (found : onGrid? tie magnitude exponent = some d) : readsAs magnitude d := by
  simp only [onGrid?, Bool.and_eq_true] at found
  split at found
  · next low =>
    cases found
    exact low.1
  · split at found
    · cases found
      assumption
    · cases found

theorem firstOn_induction {grid? : Nat → Option Decimal} {last : Decimal} {P : Decimal → Prop}
    (holdsLast : P last) (holdsOn : ∀ index d, grid? index = some d → P d) (bound : Nat) :
    P (firstOn grid? last bound) := by
  induction bound with
  | zero => exact holdsLast
  | succ index ih =>
    rw [firstOn]
    split
    · exact holdsOn _ _ ‹_›
    · exact ih

theorem readsAs_shortest (tie : Tie) {magnitude : Nat} (finite : magnitude < infinity) :
    readsAs magnitude (shortest tie magnitude) := by
  unfold shortest
  split
  · next zero =>
    subst zero
    exact readsAs_zero
  · exact firstOn_induction (readsAs_inFull finite) (fun _ _ found => readsAs_of_onGrid? found) _

end Binary64

end SableSyntax
