/- SableSyntax/Proofs/Grammar/Rules
   digest: The grammar: which tokens make up which tree, whatever order they are read in. -/

import SableSyntax.Number.Literal
import SableSyntax.Syntax.Program

set_option autoImplicit false
set_option relaxedAutoImplicit false

namespace SableSyntax

/-- The number nearest to the decimal fraction that a text with a point denotes. -/
def floatReading (text : List Char) : Binary64 :=
  .ofDecimal false (.ofDigits (text.takeWhile Char.isDigit) (text.dropWhile Char.isDigit).tail)

/-- Whether the number that a literal denotes can be represented: an integer below `2 ^ 63`, or a
fraction that rounds to a finite number. Other lexemes denote no number. -/
def Lexeme.InRange (lexeme : Lexeme) : Prop :=
  match lexeme.kind with
  | .integer => digitsValue lexeme.text.toList ≤ Nat.pow 2 63 - 1
  | .float => (floatReading lexeme.text.toList).isFinite
  | _ => True

theorem integerValue?_eq_some_iff {digits : List Char} {value : Int64} :
    integerValue? digits = some value ↔
      digitsValue digits ≤ Nat.pow 2 63 - 1 ∧ .ofNat (digitsValue digits) = value := by
  rw [← Nat.lt_iff_le_pred (show 0 < Nat.pow 2 63 by decide)]
  unfold integerValue?
  split
  · next small => simp only [small, Option.some.injEq, true_and]
  · next large => simp only [large, false_and, reduceCtorEq]

theorem floatValue?_eq_some_iff {text : List Char} {value : Binary64} :
    floatValue? text = some value ↔
      (floatReading text).isFinite ∧ floatReading text = value := by
  simp [floatValue?, floatReading]

namespace Grammar

/-- The mark of an operator, the rule of which the operator makes a chain, and the tighter rule
that its right operand is of. -/
inductive Joins : TokenKind → BinaryOperator → Precedence → Precedence → Prop
  | plus : Joins .plus .add .additive .multiplicative
  | minus : Joins .minus .sub .additive .multiplicative
  | star : Joins .star .mul .multiplicative .primary
  | slash : Joins .slash .div .multiplicative .primary

/-- Tokens that are an expression, by the rule for the loosest binding allowed:

* `assignment`: a name, the mark of assignment and an expression, or else a sum;
* `additive`: products joined by `+` and `-`, grouped to the left;
* `multiplicative`: primary expressions joined by `*` and `/`, grouped to the left;
* `primary`: a literal, a name, or an expression in parentheses. -/
inductive ExpressionRule : Precedence → List Token → Expression → Prop
  | integer {token : Token} (kind : token.kind = .integer) :
    ExpressionRule .primary [token]
      (.integer (.ofNat (digitsValue token.text.toList)) token.span)
  | float {token : Token} (kind : token.kind = .float) :
    ExpressionRule .primary [token] (.float (floatReading token.text.toList) token.span)
  | identifier {token : Token} (kind : token.kind = .identifier) :
    ExpressionRule .primary [token] (.identifier token.text token.span)
  | parenthesized {opening close : Token} {tokens : List Token} {inner : Expression}
    (left : opening.kind = .leftParen) (derived : ExpressionRule .assignment tokens inner)
    (right : close.kind = .rightParen) :
    ExpressionRule .primary (opening :: (tokens ++ [close]))
      (.parenthesized inner (opening.span.through close.span))
  | product {tokens : List Token} {value : Expression}
    (derived : ExpressionRule .primary tokens value) : ExpressionRule .multiplicative tokens value
  | sum {tokens : List Token} {value : Expression}
    (derived : ExpressionRule .multiplicative tokens value) : ExpressionRule .additive tokens value
  | link {mark : Token} {operator : BinaryOperator} {level tighter : Precedence}
    {before behind : List Token} {left right : Expression}
    (joins : Joins mark.kind operator level tighter)
    (derivedLeft : ExpressionRule level before left)
    (derivedRight : ExpressionRule tighter behind right) :
    ExpressionRule level (before ++ mark :: behind)
      (.binary operator left right (left.span.through right.span))
  | chain {tokens : List Token} {value : Expression}
    (derived : ExpressionRule .additive tokens value) : ExpressionRule .assignment tokens value
  | assignment {name mark : Token} {tokens : List Token} {value : Expression}
    (target : name.kind = .identifier) (equal : mark.kind = .equal)
    (derived : ExpressionRule .assignment tokens value) :
    ExpressionRule .assignment (name :: mark :: tokens)
      (.assignment ⟨name.text, name.span⟩ value (name.span.through value.span))

/-- Tokens that fall into items one behind the other. -/
inductive Many {α : Type} (item : List Token → α → Prop) : List Token → List α → Prop
  | nil : Many item [] []
  | cons {first rest : List Token} {value : α} {values : List α} (head : item first value)
    (tail : Many item rest values) : Many item (first ++ rest) (value :: values)

def Mark (kind : TokenKind) (tokens : List Token) (token : Token) : Prop :=
  tokens = [token] ∧ token.kind = kind

inductive TypeRule : List Token → TypeExpr → Prop
  | intro {base : Token} {stars marks : List Token} (name : base.kind = .identifier)
    (pointers : Many (Mark .star) stars marks) :
    TypeRule (base :: stars) ⟨.ofName base.text, marks.length,
      base.span.through ((marks.getLast?.map Token.span).getD base.span)⟩

inductive Ascription : List Token → TypeExpr → Prop
  | intro {colon : Token} {tokens : List Token} {type : TypeExpr} (mark : colon.kind = .colon)
    (derived : TypeRule tokens type) : Ascription (colon :: tokens) type

inductive ParameterRule : List Token → Parameter → Prop
  | intro {name : Token} {tokens : List Token} {type : TypeExpr}
    (kind : name.kind = .identifier) (ascribed : Ascription tokens type) :
    ParameterRule (name :: tokens)
      ⟨⟨name.text, name.span⟩, type, name.span.through type.span⟩

inductive FurtherParameter : List Token → Parameter → Prop
  | intro {comma : Token} {tokens : List Token} {parameter : Parameter}
    (mark : comma.kind = .comma) (derived : ParameterRule tokens parameter) :
    FurtherParameter (comma :: tokens) parameter

inductive ParametersRule : List Token → List Parameter → Prop
  | none : ParametersRule [] []
  | some {first rest : List Token} {parameter : Parameter} {parameters : List Parameter}
    (head : ParameterRule first parameter) (tail : Many FurtherParameter rest parameters) :
    ParametersRule (first ++ rest) (parameter :: parameters)

inductive DeclaredTypeRule : List Token → Option TypeExpr → Prop
  | absent : DeclaredTypeRule [] none
  | present {tokens : List Token} {type : TypeExpr} (ascribed : Ascription tokens type) :
    DeclaredTypeRule tokens (some type)

section Statements

-- Which tokens are an expression that may stand in a statement.
variable (expression : List Token → Expression → Prop)

/-- A statement: `var`, a name, a type or none, the mark of assignment, an expression and a
semicolon; or an expression and a semicolon. -/
inductive StatementRule : List Token → Statement → Prop
  | variable {keyword name mark close : Token} {ascription tokens : List Token}
    {declaredType : Option TypeExpr} {value : Expression}
    (var : keyword.kind = .var) (target : name.kind = .identifier)
    (declared : DeclaredTypeRule ascription declaredType) (equal : mark.kind = .equal)
    (derived : expression tokens value) (semicolon : close.kind = .semicolon) :
    StatementRule (keyword :: name :: (ascription ++ mark :: (tokens ++ [close])))
      (.variable ⟨name.text, name.span⟩ declaredType value (keyword.span.through close.span))
  | expression {close : Token} {tokens : List Token} {value : Expression}
    (derived : expression tokens value) (semicolon : close.kind = .semicolon) :
    StatementRule (tokens ++ [close]) (.expression value (value.span.through close.span))

inductive BlockRule : List Token → Block → Prop
  | intro {opening close : Token} {tokens : List Token} {statements : List Statement}
    (left : opening.kind = .leftBrace) (derived : Many (StatementRule expression) tokens statements)
    (right : close.kind = .rightBrace) :
    BlockRule (opening :: (tokens ++ [close])) ⟨statements, opening.span.through close.span⟩

inductive BodyRule : List Token → Option Block × Span → Prop
  | block {tokens : List Token} {body : Block} (derived : BlockRule expression tokens body) :
    BodyRule tokens (some body, body.span)
  | semicolon {close : Token} (mark : close.kind = .semicolon) :
    BodyRule [close] (none, close.span)

inductive FunctionRule : List Token → Function → Prop
  | intro {keyword name opening close : Token} {inside ascription behind : List Token}
    {parameters : List Parameter} {returnType : TypeExpr} {body : Option Block} {last : Span}
    (func : keyword.kind = .func) (target : name.kind = .identifier)
    (left : opening.kind = .leftParen) (derivedParameters : ParametersRule inside parameters)
    (right : close.kind = .rightParen) (ascribed : Ascription ascription returnType)
    (derivedBody : BodyRule expression behind (body, last)) :
    FunctionRule
      (keyword :: name :: opening :: (inside ++ close :: (ascription ++ behind)))
      ⟨⟨name.text, name.span⟩, parameters, returnType, body, keyword.span.through last⟩

/-- A program: functions up to the end of the text. A program without functions is the empty
stretch before the end. -/
inductive ProgramRule (stop : Token) : List Token → Program → Prop
  | intro {tokens : List Token} {functions : List Function}
    (derived : Many (FunctionRule expression) tokens functions) :
    ProgramRule stop tokens ⟨functions, (tokens.headD stop).span.through
      ((functions.getLast?.map Function.span).getD (.point stop.span.start))⟩

end Statements

end Grammar

end SableSyntax
