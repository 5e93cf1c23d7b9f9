/- SableSyntax/Proofs/Persistence/Numbers
   digest: Numbers are restored from the JSON numbers they are stored as, floats bit by bit. -/

import SableSyntax.Persistence.Number
import SableSyntax.Persistence.Token
import SableSyntax.Proofs.Json.Values

set_option autoImplicit false
set_option relaxedAutoImplicit false

namespace SableSyntax

section Rounding

theorem pow_two_le_pow_ten {places count : Nat} (h : places ≤ 3 * count) :
    Nat.pow 2 places ≤ Nat.pow 10 count := by
  have power : Nat.pow 2 (3 * count) = Nat.pow 8 count := Nat.pow_mul 2 3 count
  calc Nat.pow 2 places ≤ Nat.pow 2 (3 * count) := Nat.pow_le_pow_right (by decide) h
    _ = Nat.pow 8 count := power
    _ ≤ Nat.pow 10 count := Nat.pow_le_pow_left (by decide) count

namespace Decimal

theorem nearest_of_large {d : Decimal} (nonzero : d.coefficient ≠ 0) (large : 400 < d.exponent) :
    Binary64.nearest d.num d.den = Binary64.infinity := by
  have whole : d.den = 1 := by rw [den, show (-d.exponent).toNat = 0 by omega]
  have power := pow_two_le_pow_ten (Nat.le_refl (3 * d.exponent.toNat))
  refine Binary64.nearest_of_large d.den_pos (show 1025 ≤ 3 * d.exponent.toNat by omega) ?_
  rw [whole, num, Nat.mul_one]
  exact Nat.le_trans power (Nat.le_mul_of_pos_left _ (Nat.pos_of_ne_zero nonzero))

theorem nearest_of_small {d : Decimal} (small : d.exponent + Nat.log2 d.coefficient + 400 < 0) :
    Binary64.nearest d.num d.den = 0 := by
  have whole : d.num = d.coefficient := by
    rw [num, show d.exponent.toNat = 0 by omega]
    exact Nat.mul_one _
  have below : d.num < Nat.pow 2 (Nat.log2 d.coefficient + 1) := whole ▸ Nat.lt_log2_self
  refine Binary64.nearest_of_small below ?_
  rw [den]
  refine pow_two_le_pow_ten ?_
  omega

end Decimal

theorem finiteOfDecimal?_eq (negative : Bool) (d : Decimal) :
    finiteOfDecimal? negative d =
      if (Binary64.ofDecimal negative d).isFinite then some (Binary64.ofDecimal negative d)
      else none := by
  have finite (m : Nat) (small : m ≤ Binary64.infinity) :
      (Binary64.ofMagnitude negative m).isFinite = decide (m < Binary64.infinity) := by
    rw [Binary64.isFinite, (Binary64.magnitude_ofMagnitude negative small).1]
  rw [finiteOfDecimal?]
  split
  · next zero =>
    have rounded : Binary64.nearest d.num d.den = 0 := by
      rw [Decimal.num, zero, Nat.zero_mul]
      exact Binary64.nearest_zero d.den_pos
    rw [Binary64.ofDecimal, rounded, finite 0 (Nat.zero_le _)]
    rfl
  · next nonzero =>
    split
    · next large =>
      rw [Binary64.ofDecimal, Decimal.nearest_of_large nonzero large, finite _ (Nat.le_refl _),
        if_neg (by simp)]
    · split
      · next small =>
        rw [Binary64.ofDecimal, Decimal.nearest_of_small small, finite 0 (Nat.zero_le _)]
        rfl
      · rfl

end Rounding

section Numbers

theorem write_integer (value : Int) : (Json.number (.integer value)).write = toString value :=
  String.ofList_toList

theorem read?_toString (value : Int) :
    Json.read? (toString value) = some (.number (.integer value)) := by
  have read : readNumeral (Numeral.integer value).text = some (.integer value, []) := by
    simpa using @readNumeral_integer [] value (by rintro c ⟨⟩)
  rw [← write_integer]
  exact read?_write_number read

theorem nat?_of_lt {limit value : Nat} (inRange : value < limit) :
    Json.nat? limit (.number (.integer value)) = some value := by
  have within : 0 ≤ (value : Int) ∧ (value : Int) < limit := by omega
  rw [Json.nat?, if_pos within, Int.toNat_natCast]

theorem int64OfJson?_toInt (value : Int64) :
    int64OfJson? (.number (.integer value.toInt)) = some value := by
  have low : Int64.minValue.toInt ≤ value.toInt := Int64.le_toInt value
  have high : value.toInt ≤ Int64.maxValue.toInt := Int64.toInt_le value
  rw [int64OfJson?, if_pos ⟨low, high⟩, Int64.ofInt_toInt]

namespace Binary64

theorem shortest_normal (tie : Tie) {magnitude : Nat} (finite : magnitude < infinity) :
    (shortest tie magnitude).coefficient = 0 → (shortest tie magnitude).exponent ≤ 0 := by
  intro zero
  have back := beq_iff_eq.1 (readsAs_shortest tie finite)
  rw [Decimal.num, zero, Nat.zero_mul, nearest_zero (Decimal.den_pos _)] at back
  rw [← back]
  exact Int.le_refl 0

theorem exists_read?_write {x : Binary64} (finite : x.isFinite) :
    ∃ json, Json.read? x.toJson.write = some json ∧ ofJson? json = some x := by
  have small : x.magnitude < infinity := of_decide_eq_true finite
  obtain ⟨d, value, read⟩ := readNumeral_decimal x.isNegative (shortest_normal .toEven small)
  refine ⟨.number (.decimal x.isNegative d), ?_, ?_⟩
  · rw [toJson, if_pos finite]
    exact read?_write_number (by simpa using read [] (by rintro c ⟨⟩))
  · have back : nearest d.num d.den = x.magnitude :=
      (nearest_congr d.den_pos (Decimal.den_pos _) value).trans
        (beq_iff_eq.1 (readsAs_shortest .toEven small))
    have same : ofDecimal x.isNegative d = x := by
      obtain ⟨magnitude, sign⟩ := magnitude_ofMagnitude x.isNegative (Nat.le_of_lt small)
      rw [ofDecimal, back]
      exact eq_of_magnitude_eq sign magnitude
    rw [Binary64.ofJson?, Numeral.binary64?, finiteOfDecimal?_eq, same, if_pos finite]

end Binary64

end Numbers

end SableSyntax
