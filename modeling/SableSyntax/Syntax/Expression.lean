/- SableSyntax/Syntax/Expression
   digest: Expression trees and their equality up to places. -/

import SableSyntax.Number.Binary64
import SableSyntax.Syntax.Operator
import SableSyntax.Syntax.TypeExpr

set_option autoImplicit false
set_option relaxedAutoImplicit false

namespace SableSyntax

/-- An expression; every node spans the text it was written as, parentheses included. -/
inductive Expression
  | assignment (target : Identifier) (value : Expression) (span : Span)
  | binary (operator : BinaryOperator) (left right : Expression) (span : Span)
  | identifier (name : String) (span : Span)
  | integer (value : Int64) (span : Span)
  | float (value : Binary64) (span : Span)
  | parenthesized (inner : Expression) (span : Span)
  deriving DecidableEq, Repr

namespace Expression

def span : Expression → Span
  | .assignment _ _ span | .binary _ _ _ span | .identifier _ span | .integer _ span
  | .float _ span | .parenthesized _ span => span

/-- Whether two expressions have one shape and equal leaves, wherever they stand. Floats are
compared as numbers. -/
def agrees : Expression → Expression → Bool
  | .assignment target value _, .assignment target' value' _ =>
    target == target' && value.agrees value'
  | .binary operator left right _, .binary operator' left' right' _ =>
    decide (operator = operator') && left.agrees left' && right.agrees right'
  | .identifier name _, .identifier name' _ => name == name'
  | .integer value _, .integer value' _ => value == value'
  | .float value _, .float value' _ => value == value'
  | .parenthesized inner _, .parenthesized inner' _ => inner.agrees inner'
  | _, _ => false

instance : BEq Expression := ⟨agrees⟩

end Expression

end SableSyntax
