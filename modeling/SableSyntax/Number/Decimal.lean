/- SableSyntax/Number/Decimal
   digest: Decimal fractions, read from digits and written with or without an exponent. -/

set_option autoImplicit false
set_option relaxedAutoImplicit false

namespace SableSyntax

def digitsValue (digits : List Char) : Nat :=
  Nat.ofDigitChars 10 digits 0

/-- The quotient of two naturals, rounded to the nearest natural, half a unit to the even one. -/
def roundDiv (num den : Nat) : Nat :=
  if 2 * (num % den) < den ∨ 2 * (num % den) = den ∧ num / den % 2 = 0 then num / den
  else num / den + 1

/-- The fraction `coefficient * 10 ^ exponent`. -/
structure Decimal where
  coefficient : Nat
  exponent : Int
  deriving DecidableEq, Repr

namespace Decimal

def num (d : Decimal) : Nat := d.coefficient * Nat.pow 10 d.exponent.toNat

def den (d : Decimal) : Nat := Nat.pow 10 (-d.exponent).toNat

theorem den_pos (d : Decimal) : 0 < d.den := Nat.pow_pos (by decide)

def ofDigits (whole fraction : List Char) : Decimal :=
  ⟨digitsValue (whole ++ fraction), -(fraction.length : Int)⟩

/-- The fraction written with a point and at least one digit on either side of it. -/
def positional (d : Decimal) : List Char :=
  let digits := Nat.toDigits 10 d.coefficient ++ List.replicate d.exponent.toNat '0'
  let places := (-d.exponent).toNat
  let padded := List.replicate (places + 1 - digits.length) '0' ++ digits
  let whole := padded.take (padded.length - places)
  let fraction := padded.drop (padded.length - places)
  whole ++ '.' :: (if fraction = [] then ['0'] else fraction)

/-- The fraction written with one digit before the point and a power of ten, and with neither
point nor zeros if there is one digit only. -/
def scientific (d : Decimal) : List Char :=
  match Nat.toDigits 10 d.coefficient with
  | [] => []
  | first :: rest =>
    let mantissa := if rest = [] then [first] else first :: '.' :: rest
    mantissa ++ 'e' :: (toString (d.exponent + rest.length)).toList

/-- The positional form where the point falls at most four zeros before the digits or sixteen
digits behind the first, and the scientific form elsewhere. -/
def compact (d : Decimal) : List Char :=
  let point := (Nat.toDigits 10 d.coefficient).length + d.exponent
  if -5 < point ∧ point ≤ 16 then d.positional else d.scientific

end Decimal

end SableSyntax
