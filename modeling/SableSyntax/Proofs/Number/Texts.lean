/- SableSyntax/Proofs/Number/Texts
   digest: Numbers in range are written as literals that denote them. -/

import SableSyntax.Proofs.Grammar.Rules
import SableSyntax.Proofs.Lexing.Spelling
import SableSyntax.Proofs.Number.Rounding

set_option autoImplicit false
set_option relaxedAutoImplicit false

namespace SableSyntax

section Digits

theorem digitsValue_append (front back : List Char) :
    digitsValue (front ++ back) =
      Nat.pow 10 back.length * digitsValue front + digitsValue back := by
  rw [digitsValue, Nat.ofDigitChars_append, Nat.ofDigitChars_eq_ofDigitChars_zero]
  rfl

theorem digitsValue_zeros (count : Nat) : digitsValue (List.replicate count '0') = 0 := by
  rw [digitsValue, Nat.ofDigitChars_replicate_zero, Nat.mul_zero]

theorem isDigit_of_mem_zeros {count : Nat} {c : Char} (h : c ∈ List.replicate count '0') :
    c.isDigit := by
  rw [(List.mem_replicate.1 h).2]
  decide

theorem head?_toDigits_ne_zero {n : Nat} (pos : 0 < n) :
    (Nat.toDigits 10 n).head? ≠ some '0' := by
  induction n using Nat.strongRecOn with
  | ind n ih =>
    by_cases small : n < 10
    · rw [Nat.toDigits_of_lt_base small, List.head?_cons, Ne, Option.some.injEq,
        Nat.digitChar_eq_zero]
      omega
    · obtain ⟨first, more, same⟩ := List.exists_cons_of_ne_nil (@Nat.toDigits_ne_nil (n / 10) 10)
      have front := ih (n / 10) (by omega) (by omega)
      rw [Nat.toDigits_of_base_le (by decide) (by omega), same]
      rwa [same] at front

end Digits

namespace Decimal

private def padded (d : Decimal) (length : Nat) : List Char :=
  let digits := Nat.toDigits 10 d.coefficient ++ List.replicate d.exponent.toNat '0'
  List.replicate (length - digits.length) '0' ++ digits

private theorem isDigit_of_mem_padded {d : Decimal} {length : Nat} {c : Char}
    (h : c ∈ d.padded length) : c.isDigit := by
  simp only [padded, List.mem_append] at h
  rcases h with zero | digit | zero
  · exact isDigit_of_mem_zeros zero
  · exact Nat.isDigit_of_mem_toDigits (by decide) (by decide) digit
  · exact isDigit_of_mem_zeros zero

private theorem le_length_padded (d : Decimal) (length : Nat) :
    length ≤ (d.padded length).length := by
  simp only [padded, List.length_append, List.length_replicate]
  omega

private theorem digitsValue_padded (d : Decimal) (length : Nat) :
    digitsValue (d.padded length) = d.num := by
  have digits : digitsValue (Nat.toDigits 10 d.coefficient) = d.coefficient :=
    Nat.ofDigitChars_ten_toDigits
  simp only [padded, digitsValue_append, digitsValue_zeros, digits, List.length_replicate,
    Nat.mul_zero, Nat.zero_add, Nat.add_zero, num]
  exact Nat.mul_comm _ _

theorem num_ofDigits (whole fraction : List Char) :
    (ofDigits whole fraction).num = digitsValue (whole ++ fraction) := by
  have none : (-(fraction.length : Int)).toNat = 0 := by omega
  simp only [ofDigits, num, none]
  exact Nat.mul_one _

theorem den_ofDigits (whole fraction : List Char) :
    (ofDigits whole fraction).den = Nat.pow 10 fraction.length := by
  simp only [ofDigits, den, Int.neg_neg, Int.toNat_natCast]

private theorem positional_eq_cut (d : Decimal) : ∃ whole fraction,
    d.padded ((-d.exponent).toNat + 1) = whole ++ fraction ∧
      fraction.length = (-d.exponent).toNat ∧
      d.positional = whole ++ '.' :: (if fraction = [] then ['0'] else fraction) := by
  have long := d.le_length_padded ((-d.exponent).toNat + 1)
  have cut := List.take_append_drop
    ((d.padded ((-d.exponent).toNat + 1)).length - (-d.exponent).toNat)
    (d.padded ((-d.exponent).toNat + 1))
  refine ⟨_, _, cut.symm, ?_, rfl⟩
  rw [List.length_drop]
  omega

private theorem eq_zero_of_head?_padded {d : Decimal} {whole fraction : List Char}
    (normal : d.coefficient = 0 → d.exponent ≤ 0)
    (cut : d.padded ((-d.exponent).toNat + 1) = whole ++ fraction)
    (places : fraction.length = (-d.exponent).toNat) (zero : whole.head? = some '0') :
    whole = ['0'] := by
  obtain ⟨more, rfl⟩ : ∃ more, whole = '0' :: more := List.head?_eq_some_iff.1 zero
  have length := congrArg List.length cut
  rw [padded] at cut length
  generalize digits : Nat.toDigits 10 d.coefficient ++ List.replicate d.exponent.toNat '0' =
    written at cut length
  simp only [List.length_append, List.length_cons, List.length_replicate, places] at length
  by_cases short : written.length ≤ (-d.exponent).toNat + 1
  · have none : more.length = 0 := by omega
    rw [List.length_eq_zero_iff.1 none]
  · have unpadded : (-d.exponent).toNat + 1 - written.length = 0 := by omega
    rw [unpadded, List.replicate_zero, List.nil_append] at cut
    by_cases pos : 0 < d.coefficient
    · obtain ⟨first, tail, same⟩ :=
        List.exists_cons_of_ne_nil (@Nat.toDigits_ne_nil d.coefficient 10)
      have front := head?_toDigits_ne_zero pos
      rw [← digits, same, List.cons_append, List.cons_append, List.cons.injEq] at cut
      rw [same, cut.1] at front
      exact absurd rfl front
    · -- The digits of zero are one digit, and none are added to it.
      have zero : d.coefficient = 0 := by omega
      have exponent := normal zero
      have one : written.length = 1 := by
        rw [← digits, zero, show d.exponent.toNat = 0 by omega]
        rfl
      omega

/-- The positional form has digits on either side of its point, and they stand for the value of
the fraction. There is no needless zero in front, unless zero has a positive exponent. -/
theorem positional_eq (d : Decimal) : ∃ whole fraction,
    d.positional = whole ++ '.' :: fraction ∧ whole ≠ [] ∧ (∀ c ∈ whole, c.isDigit) ∧
      fraction ≠ [] ∧ (∀ c ∈ fraction, c.isDigit) ∧
      (ofDigits whole fraction).num * d.den = d.num * (ofDigits whole fraction).den ∧
      ((d.coefficient = 0 → d.exponent ≤ 0) → whole.head? = some '0' → whole = ['0']) := by
  obtain ⟨whole, fraction, cut, places, same⟩ := d.positional_eq_cut
  have long := d.le_length_padded ((-d.exponent).toNat + 1)
  have value := d.digitsValue_padded ((-d.exponent).toNat + 1)
  have all := fun c => @isDigit_of_mem_padded d ((-d.exponent).toNat + 1) c
  rw [cut] at long value
  simp only [cut, List.mem_append] at all
  have den : d.den = Nat.pow 10 fraction.length := by rw [places, Decimal.den]
  have nonempty : whole ≠ [] := by
    intro h
    subst h
    rw [List.nil_append, places] at long
    omega
  have plain := fun normal => @eq_zero_of_head?_padded d whole fraction normal cut places
  refine ⟨whole, _, same, nonempty, fun c member => all c (.inl member), ?_⟩
  by_cases empty : fraction = []
  · -- The zero behind the point makes numerator and denominator ten times as large.
    subst empty
    rw [List.append_nil] at value
    refine ⟨by simp, by simp, ?_, plain⟩
    rw [if_pos rfl, num_ofDigits, den_ofDigits, digitsValue_append, value, den]
    have zero : digitsValue ['0'] = 0 := digitsValue_zeros 1
    rw [zero, Nat.add_zero, List.length_singleton, List.length_nil,
      show Nat.pow 10 1 * d.num * Nat.pow 10 0 = Nat.pow 10 1 * d.num from Nat.mul_one _]
    exact Nat.mul_comm _ _
  · rw [if_neg empty, num_ofDigits, den_ofDigits, value, den]
    exact ⟨empty, fun c member => all c (.inr member), rfl, plain⟩

end Decimal

theorem floatReading_eq {whole fraction : List Char} (all : ∀ c ∈ whole, c.isDigit) :
    floatReading (whole ++ '.' :: fraction) = .ofDecimal false (.ofDigits whole fraction) := by
  obtain ⟨taken, dropped⟩ := @takeWhile_append_of_all Char.isDigit whole ('.' :: fraction) all
    (by simp)
  rw [floatReading, taken, dropped, List.tail_cons]

theorem spells_positional (d : Decimal) : Spells .float d.positional := by
  obtain ⟨whole, fraction, same, nonempty, all, nonempty', all', -⟩ := d.positional_eq
  rw [same]
  exact .float nonempty all nonempty' all'

theorem floatReading_positional (d : Decimal) :
    floatReading d.positional = .ofDecimal false d := by
  obtain ⟨whole, fraction, same, -, all, -, -, value, -⟩ := d.positional_eq
  rw [same, floatReading_eq all, Binary64.ofDecimal, Binary64.ofDecimal,
    Binary64.nearest_congr (Decimal.den_pos _) (Decimal.den_pos _) value]

namespace Binary64

theorem magnitude_ofMagnitude (negative : Bool) {m : Nat} (small : m ≤ infinity) :
    (ofMagnitude negative m).magnitude = m ∧ (ofMagnitude negative m).isNegative = negative := by
  have bound : infinity < signPlace := by decide
  have range : signPlace + signPlace = 2 ^ 64 := by decide
  have bits : (ofMagnitude negative m).bits.toNat = if negative then signPlace + m else m := by
    rw [ofMagnitude, UInt64.toNat_ofNat']
    cases negative <;> exact Nat.mod_eq_of_lt (by simp; omega)
  rw [magnitude, isNegative, bits]
  cases negative with
  | true =>
    have magnitude : (signPlace + m) % signPlace = m := by
      rw [Nat.add_mod_left]
      exact Nat.mod_eq_of_lt (by omega)
    exact ⟨magnitude, decide_eq_true (Nat.le_add_right _ _)⟩
  | false => exact ⟨Nat.mod_eq_of_lt (by simp; omega), decide_eq_false (by simp; omega)⟩

theorem eq_of_magnitude_eq {x y : Binary64} (sign : x.isNegative = y.isNegative)
    (same : x.magnitude = y.magnitude) : x = y := by
  have place : signPlace = 9223372036854775808 := rfl
  have range := x.bits.toNat_lt
  have range' := y.bits.toNat_lt
  simp only [isNegative, magnitude, place, decide_eq_decide] at sign same
  have bits : x.bits = y.bits := UInt64.toNat_inj.1 (by omega)
  cases x
  cases y
  rw [mk.injEq]
  exact bits

theorem text_ofMagnitude {m : Nat} (finite : m < infinity) :
    (ofMagnitude false m).text = String.ofList (shortest .up m).positional := by
  obtain ⟨same, positive⟩ := magnitude_ofMagnitude false (Nat.le_of_lt finite)
  have number : ¬ infinity < m := by omega
  simp [text, isNaN, isFinite, same, positive, finite, number]

theorem floatReading_text_ofMagnitude {m : Nat} (finite : m < infinity) :
    floatReading (ofMagnitude false m).text.toList = ofMagnitude false m := by
  have back : nearest (shortest .up m).num (shortest .up m).den = m :=
    beq_iff_eq.1 (readsAs_shortest .up finite)
  rw [text_ofMagnitude finite, String.toList_ofList, floatReading_positional, ofDecimal, back]

end Binary64

theorem exists_magnitude_of_floatReading {text : List Char}
    (finite : (floatReading text).isFinite) :
    ∃ m, m < Binary64.infinity ∧ floatReading text = .ofMagnitude false m := by
  refine ⟨_, ?_, rfl⟩
  rw [floatReading, Binary64.ofDecimal, Binary64.isFinite,
    (Binary64.magnitude_ofMagnitude false (Binary64.nearest_le_infinity _ _)).1] at finite
  exact of_decide_eq_true finite

theorem Binary64.float_text {x : Binary64} (finite : x.isFinite) (positive : x.isNegative = false) :
    Spells .float x.text.toList ∧ floatReading x.text.toList = x := by
  have small : x.magnitude < infinity := of_decide_eq_true finite
  obtain ⟨same, positive'⟩ := magnitude_ofMagnitude false (Nat.le_of_lt small)
  rw [eq_of_magnitude_eq (positive.trans positive'.symm) same.symm]
  refine ⟨?_, floatReading_text_ofMagnitude small⟩
  rw [text_ofMagnitude small, String.toList_ofList]
  exact spells_positional _

theorem isNegative_floatReading {text : List Char} (finite : (floatReading text).isFinite) :
    (floatReading text).isNegative = false := by
  obtain ⟨m, small, same⟩ := exists_magnitude_of_floatReading finite
  rw [same]
  exact (Binary64.magnitude_ofMagnitude false (Nat.le_of_lt small)).2

theorem float_text {text : List Char} (finite : (floatReading text).isFinite) :
    Spells .float (floatReading text).text.toList ∧
      floatReading (floatReading text).text.toList = floatReading text :=
  Binary64.float_text finite (isNegative_floatReading finite)

theorem not_isNaN_of_isFinite {x : Binary64} (finite : x.isFinite) : x.isNaN = false := by
  have := of_decide_eq_true finite
  exact decide_eq_false (by omega)

theorem integer_text {value : Nat} (inRange : value ≤ Nat.pow 2 63 - 1) :
    Spells .integer (toString (Int64.ofNat value).toInt).toList ∧
      digitsValue (toString (Int64.ofNat value).toInt).toList = value := by
  have digits : (toString (Int64.ofNat value).toInt).toList = Nat.toDigits 10 value := by
    have bound : value < Nat.pow 2 63 := Nat.lt_of_le_pred (by decide) inRange
    rw [Int64.toInt_ofNat_of_lt bound]
    exact Nat.toList_repr
  rw [digits]
  exact ⟨.integer Nat.toDigits_ne_nil fun c => Nat.isDigit_of_mem_toDigits (by decide) (by decide),
    Nat.ofDigitChars_ten_toDigits⟩

theorem toInt_nonneg_iff {value : Int64} :
    0 ≤ value.toInt ↔ ∃ n, n ≤ Nat.pow 2 63 - 1 ∧ Int64.ofNat n = value := by
  have below : Nat.pow 2 63 - 1 < Nat.pow 2 63 := by decide
  constructor
  · intro nonneg
    obtain ⟨n, same⟩ := Int.eq_ofNat_of_zero_le nonneg
    have bound := value.toInt_lt
    have inRange : n < Nat.pow 2 63 := by
      rw [same] at bound
      exact_mod_cast bound
    refine ⟨n, Nat.le_pred_of_lt inRange, Int64.toInt_inj.1 ?_⟩
    rw [Int64.toInt_ofNat_of_lt inRange, same]
  · rintro ⟨n, inRange, rfl⟩
    rw [Int64.toInt_ofNat_of_lt (Nat.lt_of_le_of_lt inRange below)]
    exact Int.natCast_nonneg n

end SableSyntax
