/- SableSyntax/Proofs/Nesting/Levels
   digest: How many levels of nesting reading an expression holds open at once. -/

import SableSyntax.Syntax.Expression

set_option autoImplicit false
set_option relaxedAutoImplicit false

namespace SableSyntax

namespace Expression

/-- The number of operators on the left edge of an expression: the links of the chain it is. -/
def leftSpine : Expression → Nat
  | .binary _ left _ _ => left.leftSpine + 1
  | _ => 0

/-- The levels that are open where reading an expression has most of them open. A right operand is
read with the links of its chain open, a left operand before any of them. -/
def need : Expression → Nat
  | .assignment _ value _ => value.need + 1
  | .parenthesized inner _ => inner.need + 1
  | .binary _ left right _ => max left.need (left.leftSpine + 1 + right.need)
  | _ => 0

theorem leftSpine_le_need (e : Expression) : e.leftSpine ≤ e.need := by
  cases e <;> simp only [leftSpine, need, Nat.zero_le]
  omega

end Expression

end SableSyntax
