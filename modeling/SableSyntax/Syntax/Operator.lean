/- SableSyntax/Syntax/Operator
   digest: The binary operators, how tightly they bind and to which side they group. -/

import SableSyntax.Token

set_option autoImplicit false
set_option relaxedAutoImplicit false

namespace SableSyntax

inductive BinaryOperator
  | add | sub | mul | div
  deriving DecidableEq, Repr

instance : ToString BinaryOperator where
  toString
    | .add => "+"
    | .sub => "-"
    | .mul => "*"
    | .div => "/"

inductive Precedence
  | assignment | additive | multiplicative | primary
  deriving DecidableEq, Repr

namespace Precedence

def rank : Precedence → Nat
  | .assignment => 0
  | .additive => 1
  | .multiplicative => 2
  | .primary => 3

instance : LE Precedence := ⟨fun a b => a.rank ≤ b.rank⟩

instance (a b : Precedence) : Decidable (a ≤ b) := inferInstanceAs (Decidable (a.rank ≤ b.rank))

/-- The next tighter level; nothing binds tighter than a primary expression. -/
def next : Precedence → Precedence
  | .assignment => .additive
  | .additive => .multiplicative
  | .multiplicative | .primary => .primary

theorem le_next (level : Precedence) : level ≤ level.next := by
  cases level <;> decide

end Precedence

/-- The side to which a chain of one operator groups. -/
inductive Associativity
  | left | right
  deriving DecidableEq, Repr

structure OperatorRule where
  operator : BinaryOperator
  precedence : Precedence
  associativity : Associativity
  deriving DecidableEq, Repr

/-- The loosest level at which the right operand may start: an operator that groups to the left
leaves further operators of its own level to the chain. -/
def OperatorRule.rightOperand (rule : OperatorRule) : Precedence :=
  match rule.associativity with
  | .left => rule.precedence.next
  | .right => rule.precedence

def TokenKind.operatorRule? : TokenKind → Option OperatorRule
  | .plus => some ⟨.add, .additive, .left⟩
  | .minus => some ⟨.sub, .additive, .left⟩
  | .star => some ⟨.mul, .multiplicative, .left⟩
  | .slash => some ⟨.div, .multiplicative, .left⟩
  | _ => none

end SableSyntax
