/- SableSyntax/Persistence/Number
   digest: Binary numbers as JSON numbers. -/

import SableSyntax.Json.Value
import SableSyntax.Number.Shortest

set_option autoImplicit false
set_option relaxedAutoImplicit false

namespace SableSyntax

/-- The binary number nearest to a decimal fraction, if it is finite. Fractions above
`10 ^ 400` or below `10 ^ -399` are told from their size alone. -/
def finiteOfDecimal? (negative : Bool) (d : Decimal) : Option Binary64 :=
  if d.coefficient = 0 then some (.ofMagnitude negative 0)
  else if 400 < d.exponent then none
  else if d.exponent + Nat.log2 d.coefficient + 400 < 0 then some (.ofMagnitude negative 0)
  else
    let value := Binary64.ofDecimal negative d
    if value.isFinite then some value else none

def Numeral.binary64? : Numeral → Option Binary64
  | .integer value => finiteOfDecimal? (value < 0) ⟨value.natAbs, 0⟩
  | .decimal negative value => finiteOfDecimal? negative value

namespace Binary64

/-- A finite number is written with the fewest digits; JSON has no other numbers. -/
def toJson (x : Binary64) : Json :=
  if x.isFinite then .number (.decimal x.isNegative (shortest .toEven x.magnitude)) else .null

def ofJson? : Json → Option Binary64
  | .number value => value.binary64?
  | _ => none

end Binary64

def int64ToJson (value : Int64) : Json := .number (.integer value.toInt)

def int64OfJson? : Json → Option Int64
  | .number (.integer value) =>
    if Int64.minValue.toInt ≤ value ∧ value ≤ Int64.maxValue.toInt then some (Int64.ofInt value)
    else none
  | _ => none

end SableSyntax
