/- SableSyntax/Number/Binary64
   digest: Binary floating-point numbers of 64 bits and the rounding of fractions to them. -/

import SableSyntax.Number.Decimal

set_option autoImplicit false
set_option relaxedAutoImplicit false

namespace SableSyntax

/-- A number of the IEEE 754 format binary64, told apart from all others by its bits. -/
structure Binary64 where
  bits : UInt64
  deriving DecidableEq, Repr

namespace Binary64

def signPlace : Nat := Nat.pow 2 63

def fractionCount : Nat := Nat.pow 2 52

/-- The magnitude of the infinities; larger magnitudes are no numbers. -/
def infinity : Nat := 2047 * fractionCount

def isNegative (x : Binary64) : Bool := signPlace ≤ x.bits.toNat

/-- All bits but the sign. Finite magnitudes count the nonnegative finite numbers in order. -/
def magnitude (x : Binary64) : Nat := x.bits.toNat % signPlace

def isFinite (x : Binary64) : Bool := x.magnitude < infinity

def isNaN (x : Binary64) : Bool := infinity < x.magnitude

def ofMagnitude (negative : Bool) (magnitude : Nat) : Binary64 :=
  ⟨UInt64.ofNat (if negative then signPlace + magnitude else magnitude)⟩

/-- Numerical equality: the two zeros are equal, and what is no number equals nothing. -/
instance : BEq Binary64 where
  beq x y :=
    !x.isNaN && !y.isNaN && (x.bits == y.bits || x.magnitude == 0 && y.magnitude == 0)

/-- The unit in which every finite number is a whole number is `1 / unitDen`. -/
def unitDen : Nat := Nat.pow 2 1074

def units (magnitude : Nat) : Nat :=
  if magnitude < fractionCount then magnitude
  else (fractionCount + magnitude % fractionCount) * Nat.pow 2 (magnitude / fractionCount - 1)

/-- The magnitude nearest to a fraction, the even one of two that are equally near. Fractions
from halfway above the largest finite number on round to infinity. -/
def nearest (num den : Nat) : Nat :=
  let shift := Nat.log2 (num * unitDen / den) - 52
  min infinity (shift * fractionCount + roundDiv (num * unitDen) (den * Nat.pow 2 shift))

def ofDecimal (negative : Bool) (d : Decimal) : Binary64 :=
  ofMagnitude negative (nearest d.num d.den)

end Binary64

end SableSyntax
