/- SableSyntax/Proofs/Grammar/Viable
   digest: Expressions that can be read within some levels, and beginnings of what can be read. -/

import SableSyntax.Proofs.Grammar.Rules
import SableSyntax.Proofs.Lexing.Spelling
import SableSyntax.Proofs.Nesting.Levels

set_option autoImplicit false
set_option relaxedAutoImplicit false

namespace SableSyntax

namespace Grammar

theorem ExpressionRule.loosen {level tighter : Precedence} {tokens : List Token}
    {value : Expression} (derived : ExpressionRule tighter tokens value) (le : level ≤ tighter) :
    ExpressionRule level tokens value := by
  have product := @ExpressionRule.product tokens value
  have sum := @ExpressionRule.sum tokens value
  have chain := @ExpressionRule.chain tokens value
  cases tighter <;> cases level <;>
    first
      | exact absurd le (by decide)
      | exact derived
      | exact product derived
      | exact sum derived
      | exact chain derived
      | exact sum (product derived)
      | exact chain (sum derived)
      | exact chain (sum (product derived))

theorem joins_of_operatorRule? {kind : TokenKind} {rule : OperatorRule}
    (h : kind.operatorRule? = some rule) :
    Joins kind rule.operator rule.precedence rule.rightOperand := by
  cases kind <;> simp only [TokenKind.operatorRule?, Option.some.injEq, reduceCtorEq] at h
  all_goals
    subst h
    constructor

theorem Joins.level_ne_primary {kind : TokenKind} {operator : BinaryOperator}
    {level tighter : Precedence} (joins : Joins kind operator level tighter) :
    level ≠ .primary := by
  cases joins <;> decide

theorem ExpressionRule.leftSpine_of_primary {tokens : List Token} {value : Expression}
    (derived : ExpressionRule .primary tokens value) : value.leftSpine = 0 := by
  cases derived with
  | integer | float | identifier | parenthesized => rfl
  | link joins => exact absurd rfl joins.level_ne_primary

/-- Tokens that are an expression whose numbers are in range and whose reading holds a number of
levels open at most. -/
structure Readable (levels : Nat) (level : Precedence) (tokens : List Token)
    (value : Expression) : Prop where
  derived : ExpressionRule level tokens value
  inRange : ∀ token ∈ tokens, token.InRange
  shallow : value.need ≤ levels

/-- Tokens with which something starts that a rule derives. What is missing can be written. -/
def Viable {α : Type} (rule : List Token → α → Prop) (tokens : List Token) : Prop :=
  ∃ more value, (∀ token ∈ more, token.WellSpelled) ∧ rule (tokens ++ more) value

namespace Viable

variable {α β : Type} {rule : List Token → α → Prop} {tokens : List Token}

theorem of_rule {value : α} (h : rule tokens value) : Viable rule tokens :=
  ⟨[], value, by simp, by simpa using h⟩

theorem of_append (more : List Token) (spelled : ∀ token ∈ more, token.WellSpelled)
    (h : Viable rule (tokens ++ more)) : Viable rule tokens := by
  obtain ⟨others, value, spelled', derived⟩ := h
  refine ⟨more ++ others, value, ?_, by simpa using derived⟩
  simpa [or_imp, forall_and] using ⟨spelled, spelled'⟩

theorem of_part {part : List Token → β → Prop} {used : List Token} (before : List Token)
    (h : Viable part used)
    (whole : ∀ tokens value, part tokens value → Viable rule (before ++ tokens)) :
    Viable rule (before ++ used) := by
  obtain ⟨more, value, spelled, derived⟩ := h
  refine .of_append more spelled ?_
  rw [List.append_assoc]
  exact whole _ value derived

end Viable

theorem Viable.sample {α : Type} {rule : List Token → α → Prop} {tokens : List Token}
    (kind : TokenKind) (notEnd : kind ≠ .endOfInput)
    (h : Viable rule (tokens ++ [Token.sample kind])) : Viable rule tokens :=
  h.of_append _ (by simpa using wellSpelled_sample notEnd)

namespace Readable

variable {levels : Nat}

theorem name {token : Token} (kind : token.kind = .identifier) :
    Readable levels .primary [token] (.identifier token.text token.span) where
  derived := .identifier kind
  inRange := by simp [Lexeme.InRange, kind]
  shallow := Nat.zero_le _

theorem integer {token : Token} (kind : token.kind = .integer)
    (inRange : digitsValue token.text.toList ≤ Nat.pow 2 63 - 1) : Readable levels .primary [token]
      (.integer (.ofNat (digitsValue token.text.toList)) token.span) where
  derived := .integer kind
  inRange := by simpa [Lexeme.InRange, kind] using inRange
  shallow := Nat.zero_le _

theorem float {token : Token} (kind : token.kind = .float)
    (inRange : (floatReading token.text.toList).isFinite) : Readable levels .primary [token]
      (.float (floatReading token.text.toList) token.span) where
  derived := .float kind
  inRange := by simpa [Lexeme.InRange, kind] using inRange
  shallow := Nat.zero_le _

theorem loosen {level tighter : Precedence} {tokens : List Token} {value : Expression}
    (h : Readable levels tighter tokens value) (le : level ≤ tighter) :
    Readable levels level tokens value :=
  ⟨h.derived.loosen le, h.inRange, h.shallow⟩

theorem parenthesized {opening close : Token} {tokens : List Token} {inner : Expression}
    (left : opening.kind = .leftParen) (h : Readable levels .assignment tokens inner)
    (right : close.kind = .rightParen) :
    Readable (levels + 1) .primary (opening :: (tokens ++ [close]))
      (.parenthesized inner (opening.span.through close.span)) where
  derived := .parenthesized left h.derived right
  inRange := by
    have := h.inRange
    simp_all [Lexeme.InRange, or_imp]
  shallow := Nat.succ_le_succ h.shallow

theorem assignment {name mark : Token} {tokens : List Token} {value : Expression}
    (target : name.kind = .identifier) (equal : mark.kind = .equal)
    (h : Readable levels .assignment tokens value) :
    Readable (levels + 1) .assignment (name :: mark :: tokens)
      (.assignment ⟨name.text, name.span⟩ value (name.span.through value.span)) where
  derived := .assignment target equal h.derived
  inRange := by
    have := h.inRange
    simp_all [Lexeme.InRange]
  shallow := Nat.succ_le_succ h.shallow

theorem link {mark : Token} {operator : BinaryOperator} {level tighter : Precedence}
    {before behind : List Token} {left right : Expression}
    (joins : Joins mark.kind operator level tighter)
    (hleft : Readable (levels + 1 + left.leftSpine) level before left)
    (hright : Readable levels tighter behind right) :
    Readable (levels + 1 + left.leftSpine) level (before ++ mark :: behind)
      (.binary operator left right (left.span.through right.span)) where
  derived := .link joins hleft.derived hright.derived
  inRange := by
    have plain : mark.InRange := by
      cases h : mark.kind <;> simp_all [Lexeme.InRange] <;> cases joins
    have := hleft.inRange
    have := hright.inRange
    simp_all [or_imp]
  shallow := by
    have := hleft.shallow
    have := hright.shallow
    simp only [Expression.need]
    omega

end Readable

end Grammar

end SableSyntax
