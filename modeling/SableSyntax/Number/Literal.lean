/- SableSyntax/Number/Literal
   digest: The values of number literals, where they are in range. -/

import SableSyntax.Number.Binary64

set_option autoImplicit false
set_option relaxedAutoImplicit false

namespace SableSyntax

/-- The value of a string of digits, if it is below `2 ^ 63`. -/
def integerValue? (digits : List Char) : Option Int64 :=
  if digitsValue digits < Nat.pow 2 63 then some (Int64.ofNat (digitsValue digits)) else none

/-- The value of digits with a point among them, if the nearest binary number is finite. -/
def floatValue? (text : List Char) : Option Binary64 :=
  let whole := text.takeWhile Char.isDigit
  let fraction := (text.dropWhile Char.isDigit).tail
  let value := Binary64.ofDecimal false (.ofDigits whole fraction)
  if value.isFinite then some value else none

end SableSyntax
