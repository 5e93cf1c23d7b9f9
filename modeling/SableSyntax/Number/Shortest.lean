/- SableSyntax/Number/Shortest
   digest: The decimal fraction of fewest digits that reads back as a given binary number. -/

import SableSyntax.Number.Binary64

set_option autoImplicit false
set_option relaxedAutoImplicit false

namespace SableSyntax

inductive Tie
  | up | toEven
  deriving DecidableEq, Repr

namespace Binary64

/-- Whether a decimal fraction rounds to a magnitude. -/
def readsAs (magnitude : Nat) (d : Decimal) : Bool :=
  nearest d.num d.den == magnitude

/-- Whether the multiple below a value is to be preferred to the one above it, given the
remainder of the value over the lower one. -/
def prefersLow (tie : Tie) (low remainder grid : Nat) : Bool :=
  2 * remainder < grid || 2 * remainder == grid && tie == .toEven && low % 2 == 0

/-- The multiple of a power of ten next to a magnitude's value that reads back as it, if one of
the two neighbours does; the nearer one if both do. -/
def onGrid? (tie : Tie) (magnitude : Nat) (exponent : Int) : Option Decimal :=
  let value := units magnitude * Nat.pow 10 (-exponent).toNat
  let grid := unitDen * Nat.pow 10 exponent.toNat
  let low : Decimal := ⟨value / grid, exponent⟩
  let high : Decimal := ⟨value / grid + 1, exponent⟩
  if readsAs magnitude low && (prefersLow tie low.coefficient (value % grid) grid ||
      !readsAs magnitude high) then some low
  else if readsAs magnitude high then some high
  else none

def inFull (magnitude : Nat) : Decimal := ⟨units magnitude * Nat.pow 5 1074, -1074⟩

/-- What is found on the grid of greatest index below a bound on which anything is found, or else
what is given. -/
def firstOn (grid? : Nat → Option Decimal) (last : Decimal) : Nat → Decimal
  | 0 => last
  | index + 1 =>
    match grid? index with
    | some d => d
    | none => firstOn grid? last index

/-- Tries ever finer powers of ten, down to the one of which every finite value is a multiple. -/
def searchGrids (tie : Tie) (magnitude bound : Nat) : Decimal :=
  firstOn (fun index => onGrid? tie magnitude ((index : Int) - 1073)) (inFull magnitude) bound

/-- The coarsest decimal fraction that reads back as a finite magnitude. The search starts at a
power of ten that exceeds twice the value, for which the logarithm of two is 0.30103. -/
def shortest (tie : Tie) (magnitude : Nat) : Decimal :=
  if magnitude = 0 then ⟨0, 0⟩
  else searchGrids tie magnitude (Nat.log2 (units magnitude) * 30103 / 100000 + 753)

/-- A number in full, without an exponent; what is not finite gets a fraction all the same. -/
def text (x : Binary64) : String :=
  if x.isNaN then "NaN.0"
  else
    (if x.isNegative then "-" else "") ++
      if x.isFinite then String.ofList (shortest .up x.magnitude).positional else "inf.0"

end Binary64

end SableSyntax
