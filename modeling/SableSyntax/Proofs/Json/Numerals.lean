/- SableSyntax/Proofs/Json/Numerals
   digest: A number is read back from its text, up to the way a fraction is made up. -/

import SableSyntax.Json.Reading
import SableSyntax.Json.Writing
import SableSyntax.Proofs.Number.Texts

set_option autoImplicit false
set_option relaxedAutoImplicit false

namespace SableSyntax

/-- Whether a text prolongs no number that stands before it. -/
def EndsNumber (rest : List Char) : Prop :=
  ∀ c ∈ rest.head?, c.isDigit = false ∧ c ≠ '.' ∧ c ≠ 'e' ∧ c ≠ 'E'

theorem EndsNumber.stop {rest : List Char} (ends : EndsNumber rest) :
    ∀ c ∈ rest.head?, ¬ c.isDigit :=
  fun c head => Bool.eq_false_iff.1 (ends c head).1

structure IsWhole (digits : List Char) : Prop where
  nonempty : digits ≠ []
  all : ∀ c ∈ digits, c.isDigit
  plain : digits.head? = some '0' → digits = ['0']

section Digits

theorem isWhole_toDigits (n : Nat) : IsWhole (Nat.toDigits 10 n) where
  nonempty := Nat.toDigits_ne_nil
  all c := Nat.isDigit_of_mem_toDigits (by decide) (by decide)
  plain zero := by
    by_cases pos : 0 < n
    · exact absurd zero (head?_toDigits_ne_zero pos)
    · obtain rfl : n = 0 := by omega
      rfl

theorem toList_toString_int (value : Int) : (toString value).toList =
    (if value < 0 then ['-'] else []) ++ Nat.toDigits 10 value.natAbs := by
  rw [Int.toString_eq_repr, Int.repr_eq_if]
  by_cases negative : value < 0
  · have natAbs : (-value).toNat = value.natAbs := by omega
    rw [if_neg (by omega), if_pos negative, String.toList_append, Nat.toList_repr, natAbs]
    rfl
  · have natAbs : value.toNat = value.natAbs := by omega
    rw [if_pos (by omega), if_neg negative, Nat.toList_repr, natAbs, List.nil_append]

end Digits

section Parts

variable {digits whole fraction rest : List Char}

theorem readDigits_append (nonempty : digits ≠ []) (all : ∀ c ∈ digits, c.isDigit)
    (stop : ∀ c ∈ rest.head?, ¬ c.isDigit) :
    readDigits (digits ++ rest) = some (digits, rest) := by
  obtain ⟨taken, dropped⟩ := takeWhile_append_of_all all stop
  rw [readDigits, taken, dropped]
  cases digits with
  | nil => exact absurd rfl nonempty
  | cons => rfl

theorem readWhole_append (h : IsWhole digits) (stop : ∀ c ∈ rest.head?, ¬ c.isDigit) :
    readWhole (digits ++ rest) = some (digits, rest) := by
  have plain : ¬ (digits.head? = some '0' ∧ digits ≠ ['0']) := fun zero => zero.2 (h.plain zero.1)
  simp only [readWhole, readDigits_append h.nonempty h.all stop, Option.bind_eq_bind,
    Option.bind_some, plain, ↓reduceIte]

theorem readFraction_absent (stop : ∀ c ∈ rest.head?, c ≠ '.') :
    readFraction rest = some ([], rest) := by
  unfold readFraction
  split
  · exact absurd rfl (stop '.' rfl)
  · rfl

theorem readExponent_absent (stop : ∀ c ∈ rest.head?, c ≠ 'e' ∧ c ≠ 'E') :
    readExponent rest = some (none, rest) := by
  unfold readExponent
  split
  · exact absurd rfl (stop 'e' rfl).1
  · exact absurd rfl (stop 'E' rfl).2
  · rfl

theorem readPower_digit {first : Char} (digit : first.isDigit) (more : List Char) :
    readPower (first :: more) = (readDigits (first :: more)).map
      fun (digits, rest) => ((digitsValue digits : Int), rest) := by
  unfold readPower
  split
  · next same =>
    cases same
    exact absurd digit (by decide)
  · next same =>
    cases same
    exact absurd digit (by decide)
  · rfl

theorem readExponent_toString (exponent : Int) (ends : EndsNumber rest) :
    readExponent ('e' :: (toString exponent).toList ++ rest) = some (some exponent, rest) := by
  have whole := isWhole_toDigits exponent.natAbs
  have value : digitsValue (Nat.toDigits 10 exponent.natAbs) = exponent.natAbs :=
    Nat.ofDigitChars_ten_toDigits
  have digits := readDigits_append whole.nonempty whole.all ends.stop
  rw [toList_toString_int]
  by_cases negative : exponent < 0
  · have same : -(exponent.natAbs : Int) = exponent := by omega
    simp only [negative, ↓reduceIte, List.nil_append, List.cons_append, readExponent, readPower,
      digits, Option.map_some, value, same]
  · have same : (exponent.natAbs : Int) = exponent := by omega
    obtain ⟨first, more, front⟩ := List.exists_cons_of_ne_nil whole.nonempty
    have digit : first.isDigit := whole.all first (front ▸ List.mem_cons_self)
    simp only [negative, ↓reduceIte, List.nil_append]
    rw [front] at digits value ⊢
    rw [List.cons_append] at digits
    simp only [List.cons_append, readExponent, readPower_digit digit, digits, Option.map_some,
      value, same]

section Numbers

variable {negative : Bool}

theorem readUnsigned_whole (h : IsWhole whole) (ends : EndsNumber rest) :
    readUnsigned negative (whole ++ rest) = some (numeralOf negative whole [] none, rest) := by
  have point := readFraction_absent fun c head => (ends c head).2.1
  have power := readExponent_absent fun c head => (ends c head).2.2
  simp only [readUnsigned, readWhole_append h ends.stop, point, power, Option.bind_eq_bind,
    Option.bind_some, Option.pure_def]

theorem readUnsigned_fraction (h : IsWhole whole) (nonempty : fraction ≠ [])
    (all : ∀ c ∈ fraction, c.isDigit) (ends : EndsNumber rest) :
    readUnsigned negative (whole ++ '.' :: fraction ++ rest) =
      some (numeralOf negative whole fraction none, rest) := by
  have front : readWhole (whole ++ '.' :: (fraction ++ rest)) =
      some (whole, '.' :: (fraction ++ rest)) := readWhole_append h (by simp)
  have power := readExponent_absent fun c head => (ends c head).2.2
  rw [List.append_assoc, List.cons_append]
  simp only [readUnsigned, front, readFraction, readDigits_append nonempty all ends.stop, power,
    Option.bind_eq_bind, Option.bind_some, Option.pure_def]

theorem readUnsigned_power (h : IsWhole whole) (all : ∀ c ∈ fraction, c.isDigit)
    (exponent : Int) (ends : EndsNumber rest) :
    readUnsigned negative (whole ++ (if fraction = [] then [] else '.' :: fraction) ++
      'e' :: (toString exponent).toList ++ rest) =
      some (numeralOf negative whole fraction (some exponent), rest) := by
  have power := readExponent_toString exponent ends
  rw [List.cons_append] at power
  rw [List.append_assoc, List.append_assoc, List.cons_append]
  generalize (toString exponent).toList ++ rest = text at power
  have stop : ∀ c ∈ ('e' :: text).head?, ¬ c.isDigit := by simp
  by_cases empty : fraction = []
  · subst empty
    have front := readWhole_append h stop
    have point : readFraction ('e' :: text) = some ([], 'e' :: text) :=
      readFraction_absent (by simp)
    simp only [readUnsigned, ↓reduceIte, List.nil_append, front, point, power,
      Option.bind_eq_bind, Option.bind_some, Option.pure_def]
  · have front : readWhole (whole ++ '.' :: (fraction ++ 'e' :: text)) =
        some (whole, '.' :: (fraction ++ 'e' :: text)) := readWhole_append h (by simp)
    have point := readDigits_append empty all stop
    simp only [readUnsigned, empty, ↓reduceIte, List.cons_append, front, readFraction, point, power,
      Option.bind_eq_bind, Option.bind_some, Option.pure_def]

end Numbers

end Parts

section Numerals

variable {rest : List Char}

theorem readNumeral_signed {text : List Char} {negative : Bool}
    (digit : ∀ c ∈ text.head?, c.isDigit) (nonempty : text ≠ []) :
    readNumeral ((if negative then ['-'] else []) ++ text) = readUnsigned negative text := by
  cases negative with
  | true => rfl
  | false =>
    obtain ⟨first, more, rfl⟩ := List.exists_cons_of_ne_nil nonempty
    simp only [Bool.false_eq_true, ↓reduceIte, List.nil_append]
    rw [readNumeral]
    intro text same
    cases same
    exact absurd (digit '-' rfl) (by decide)

theorem IsWhole.head?_append {whole : List Char} (h : IsWhole whole) (text : List Char) :
    (∀ c ∈ (whole ++ text).head?, c.isDigit) ∧ whole ++ text ≠ [] := by
  obtain ⟨first, more, rfl⟩ := List.exists_cons_of_ne_nil h.nonempty
  refine ⟨fun c head => ?_, by simp⟩
  obtain rfl : first = c := by simpa using head
  exact h.all first List.mem_cons_self

theorem numeralOf_toDigits (value : Int) :
    numeralOf (decide (value < 0)) (Nat.toDigits 10 value.natAbs) [] none = .integer value := by
  have digits : digitsValue (Nat.toDigits 10 value.natAbs) = value.natAbs :=
    Nat.ofDigitChars_ten_toDigits
  have signed : (!(decide (value < 0) && value.natAbs == 0)) = true := by
    by_cases zero : value = 0 <;> simp [zero]
  rw [numeralOf, digits, if_pos ⟨rfl, rfl, signed⟩]
  by_cases negative : value < 0
  · have same : -(value.natAbs : Int) = value := by omega
    rw [if_pos (decide_eq_true negative), same]
  · have same : (value.natAbs : Int) = value := by omega
    rw [if_neg (by simpa using negative), same]

theorem readNumeral_integer (value : Int) (ends : EndsNumber rest) :
    readNumeral ((Numeral.integer value).text ++ rest) = some (.integer value, rest) := by
  have whole := isWhole_toDigits value.natAbs
  obtain ⟨digit, nonempty⟩ := whole.head?_append rest
  have signed := @readNumeral_signed _ (decide (value < 0)) digit nonempty
  simp only [decide_eq_true_eq] at signed
  rw [Numeral.text, toList_toString_int, List.append_assoc, signed,
    readUnsigned_whole whole ends, numeralOf_toDigits]

theorem readNumeral_positional (negative : Bool) {d : Decimal}
    (normal : d.coefficient = 0 → d.exponent ≤ 0) :
    ∃ d' : Decimal, d'.num * d.den = d.num * d'.den ∧ ∀ rest, EndsNumber rest →
      readNumeral ((if negative then ['-'] else []) ++ d.positional ++ rest) =
        some (.decimal negative d', rest) := by
  obtain ⟨whole, fraction, same, nonempty, all, nonempty', all', value, plain⟩ := d.positional_eq
  have front : IsWhole whole := ⟨nonempty, all, plain normal⟩
  refine ⟨_, value, fun rest ends => ?_⟩
  obtain ⟨digit, nonempty⟩ := front.head?_append ('.' :: fraction ++ rest)
  rw [← List.append_assoc] at digit nonempty
  rw [same, List.append_assoc, readNumeral_signed digit nonempty,
    readUnsigned_fraction front nonempty' all' ends, numeralOf, if_neg (by simp [nonempty'])]
  simp

theorem scientific_eq {d : Decimal} {first : Char} {more : List Char}
    (digits : Nat.toDigits 10 d.coefficient = first :: more) :
    d.scientific = [first] ++ (if more = [] then [] else '.' :: more) ++
      'e' :: (toString (d.exponent + more.length)).toList := by
  rw [Decimal.scientific, digits]
  by_cases single : more = [] <;> simp [single]

theorem readNumeral_scientific (negative : Bool) (d : Decimal) (ends : EndsNumber rest) :
    readNumeral ((if negative then ['-'] else []) ++ d.scientific ++ rest) =
      some (.decimal negative d, rest) := by
  have digits := isWhole_toDigits d.coefficient
  have value : digitsValue (Nat.toDigits 10 d.coefficient) = d.coefficient :=
    Nat.ofDigitChars_ten_toDigits
  obtain ⟨first, more, same⟩ := List.exists_cons_of_ne_nil digits.nonempty
  rw [same] at value
  have all : ∀ c ∈ first :: more, c.isDigit := fun c member => digits.all c (same ▸ member)
  have front : IsWhole [first] := by
    refine ⟨by simp, fun c member => all c (by simp_all), fun zero => ?_⟩
    rw [List.head?_cons, Option.some.injEq] at zero
    rw [zero]
  have form := scientific_eq same
  have read := @readUnsigned_power _ more rest negative front
    (fun c member => all c (List.mem_cons_of_mem _ member)) (d.exponent + more.length) ends
  obtain ⟨digit, nonempty⟩ := front.head?_append ((if more = [] then [] else '.' :: more) ++
    ('e' :: (toString (d.exponent + more.length)).toList ++ rest))
  simp only [← List.append_assoc] at digit nonempty
  rw [form, List.append_assoc, readNumeral_signed digit nonempty, read, numeralOf,
    if_neg (by simp)]
  simp only [Decimal.ofDigits, List.singleton_append, value, Option.getD_some]
  rw [show -(more.length : Int) + (d.exponent + more.length) = d.exponent by omega]

theorem readNumeral_decimal (negative : Bool) {d : Decimal}
    (normal : d.coefficient = 0 → d.exponent ≤ 0) :
    ∃ d' : Decimal, d'.num * d.den = d.num * d'.den ∧ ∀ rest, EndsNumber rest →
      readNumeral ((Numeral.decimal negative d).text ++ rest) =
        some (.decimal negative d', rest) := by
  rw [Numeral.text, Decimal.compact]
  by_cases short : -5 < ((Nat.toDigits 10 d.coefficient).length : Int) + d.exponent ∧
      ((Nat.toDigits 10 d.coefficient).length : Int) + d.exponent ≤ 16
  · rw [if_pos short]
    exact readNumeral_positional negative normal
  · rw [if_neg short]
    exact ⟨d, rfl, fun rest ends => readNumeral_scientific negative d ends⟩

end Numerals

end SableSyntax
