/- SableSyntax/Proofs/Grammar/Strata
   digest: Expressions read stratum by stratum: sums of products of primaries, at any depth. -/

import SableSyntax.Number.Literal
import SableSyntax.Proofs.Lexing.TokenStream
import SableSyntax.Syntax.Expression

set_option autoImplicit false
set_option relaxedAutoImplicit false

namespace SableSyntax

/-- The two strata of operators. -/
inductive Stratum
  | sum | product
  deriving DecidableEq, Repr

def Stratum.operator? : Stratum → TokenKind → Option BinaryOperator
  | .sum, .plus => some .add
  | .sum, .minus => some .sub
  | .product, .star => some .mul
  | .product, .slash => some .div
  | _, _ => none

namespace Strata

/-- What is left of a stream behind a part of it. -/
abbrev Rest (stream : List LexResult) := {rest : List LexResult // rest.length < stream.length}

abbrev RestOrAll (stream : List LexResult) :=
  {rest : List LexResult // rest.length ≤ stream.length}

def exhausted : SyntaxError := ⟨.unexpectedEnd .expression, .point .start⟩

def mark (kind : TokenKind) (construct : Construct) :
    (stream : List LexResult) → Except SyntaxError (Token × Rest stream)
  | [] => .error exhausted
  | .error error :: _ => .error error
  | .ok token :: rest =>
    if token.kind = kind then .ok (token, ⟨rest, Nat.lt_add_one _⟩)
    else .error (.unexpected token (.token kind) construct)

def number {α : Type} (token : Token) (behind : List LexResult) (node : α → Expression) :
    Option α → Except SyntaxError (Expression × Rest (.ok token :: behind))
  | some value => .ok (node value, ⟨behind, Nat.lt_add_one _⟩)
  | none => .error ⟨.numberOutOfRange token.text, token.span⟩

mutual

def expression (stream : List LexResult) : Except SyntaxError (Expression × Rest stream) :=
  match stream with
  | .ok name :: .ok equal :: behind =>
    if name.kind = .identifier ∧ equal.kind = .equal then do
      let (value, ⟨rest, shorter⟩) ← expression behind
      return (.assignment ⟨name.text, name.span⟩ value (name.span.through value.span),
        ⟨rest, by simp only [List.length_cons]; omega⟩)
    else sum (.ok name :: .ok equal :: behind)
  | stream => sum stream
termination_by (stream.length, 3)

def sum (stream : List LexResult) : Except SyntaxError (Expression × Rest stream) := do
  let (left, ⟨behind, shorter⟩) ← product stream
  let (value, ⟨rest, le⟩) ← links .sum left behind
  return (value, ⟨rest, Nat.lt_of_le_of_lt le shorter⟩)
termination_by (stream.length, 2)

def product (stream : List LexResult) : Except SyntaxError (Expression × Rest stream) := do
  let (left, ⟨behind, shorter⟩) ← primary stream
  let (value, ⟨rest, le⟩) ← links .product left behind
  return (value, ⟨rest, Nat.lt_of_le_of_lt le shorter⟩)
termination_by (stream.length, 1)

def links (stratum : Stratum) (left : Expression) (stream : List LexResult) :
    Except SyntaxError (Expression × RestOrAll stream) :=
  match stream with
  | [] => .ok (left, ⟨[], Nat.le_refl _⟩)
  | .error error :: _ => .error error
  | .ok token :: behind =>
    match stratum.operator? token.kind with
    | none => .ok (left, ⟨.ok token :: behind, Nat.le_refl _⟩)
    | some operator => do
      let (right, ⟨middle, shorter⟩) ←
        match stratum with
        | .sum => product behind
        | .product => primary behind
      let (value, ⟨rest, le⟩) ←
        links stratum (.binary operator left right (left.span.through right.span)) middle
      return (value, ⟨rest, by simp only [List.length_cons]; omega⟩)
termination_by (stream.length, 0)

def primary (stream : List LexResult) : Except SyntaxError (Expression × Rest stream) :=
  match stream with
  | [] => .error exhausted
  | .error error :: _ => .error error
  | .ok token :: behind =>
    match token.kind with
    | .integer => number token behind (.integer · token.span) (integerValue? token.text.toList)
    | .float => number token behind (.float · token.span) (floatValue? token.text.toList)
    | .identifier => .ok (.identifier token.text token.span, ⟨behind, Nat.lt_add_one _⟩)
    | .leftParen => do
      let (value, ⟨middle, shorter⟩) ← expression behind
      let (close, ⟨rest, shorter'⟩) ← mark .rightParen .parenthesizedExpression middle
      return (.parenthesized value (token.span.through close.span),
        ⟨rest, by simp only [List.length_cons]; omega⟩)
    | _ => .error (.unexpected token .expression .expression)
termination_by (stream.length, 0)

end

def bare {α : Type} {bound : List LexResult → Prop}
    (outcome : Except SyntaxError (α × {rest : List LexResult // bound rest})) :
    Except SyntaxError (α × List LexResult) :=
  outcome.map fun found => (found.1, found.2.1)

def lookBehind (value : Expression) :
    List LexResult → Except SyntaxError (Expression × List LexResult)
  | .error error :: _ => .error error
  | rest => .ok (value, rest)

/-- Operands joined by operators that bind at a level or tighter. Assignment is no operator that
joins operands, and behind a primary there is nothing but a look at what follows. -/
def binary (least : Precedence) (stream : List LexResult) :
    Except SyntaxError (Expression × List LexResult) :=
  match least with
  | .assignment | .additive => bare (sum stream)
  | .multiplicative => bare (product stream)
  | .primary => do
    let (value, rest) ← bare (primary stream)
    lookBehind value rest

section Equations

theorem bare_bind {α β : Type} {bound bound' : List LexResult → Prop}
    {outcome : Except SyntaxError (α × {rest : List LexResult // bound rest})}
    {go : α × {rest : List LexResult // bound rest} →
      Except SyntaxError (β × {rest : List LexResult // bound' rest})}
    {next : α × List LexResult → Except SyntaxError (β × List LexResult)}
    (same : ∀ found, bare (go found) = next (found.1, found.2.1)) :
    bare (outcome >>= go) = bare outcome >>= next := by
  cases outcome with
  | error error => rfl
  | ok found => exact same found

theorem bare_bind_same {α : Type} {bound bound' : List LexResult → Prop}
    {outcome : Except SyntaxError (α × {rest : List LexResult // bound rest})}
    {go : α × {rest : List LexResult // bound rest} →
      Except SyntaxError (α × {rest : List LexResult // bound' rest})}
    (same : ∀ found, bare (go found) = .ok (found.1, found.2.1)) :
    bare (outcome >>= go) = bare outcome := by
  cases outcome with
  | error error => rfl
  | ok found => exact same found

variable {stream behind : List LexResult} {token : Token} {left : Expression}

theorem sum_eq (stream : List LexResult) : bare (sum stream) = (do
    let (left, behind) ← bare (product stream)
    bare (links .sum left behind)) := by
  rw [sum]
  exact bare_bind fun _ => bare_bind_same fun _ => rfl

theorem product_eq (stream : List LexResult) : bare (product stream) = (do
    let (left, behind) ← bare (primary stream)
    bare (links .product left behind)) := by
  rw [product]
  exact bare_bind fun _ => bare_bind_same fun _ => rfl

def operand (stratum : Stratum) (stream : List LexResult) :
    Except SyntaxError (Expression × List LexResult) :=
  match stratum with
  | .sum => bare (product stream)
  | .product => bare (primary stream)

theorem links_of_fault (stratum : Stratum) (left : Expression) (error : SyntaxError)
    (rest : List LexResult) : bare (links stratum left (.error error :: rest)) = .error error := by
  rw [links]
  rfl

theorem links_of_none {stratum : Stratum} (other : stratum.operator? token.kind = none) :
    bare (links stratum left (.ok token :: behind)) = .ok (left, .ok token :: behind) := by
  rw [links, other]
  rfl

theorem links_of_operator {stratum : Stratum} {operator : BinaryOperator}
    (same : stratum.operator? token.kind = some operator) :
    bare (links stratum left (.ok token :: behind)) = (do
      let (right, middle) ← operand stratum behind
      bare (links stratum (.binary operator left right (left.span.through right.span))
        middle)) := by
  rw [links, same]
  cases stratum with
  | sum => exact bare_bind fun _ => bare_bind_same fun _ => rfl
  | product => exact bare_bind fun _ => bare_bind_same fun _ => rfl

theorem primary_of_fault (error : SyntaxError) (rest : List LexResult) :
    bare (primary (.error error :: rest)) = .error error := by
  rw [primary]
  rfl

theorem primary_of_integer (same : token.kind = .integer) :
    primary (.ok token :: behind) =
      number token behind (.integer · token.span) (integerValue? token.text.toList) := by
  rw [primary, same]

theorem primary_of_float (same : token.kind = .float) :
    primary (.ok token :: behind) =
      number token behind (.float · token.span) (floatValue? token.text.toList) := by
  rw [primary, same]

theorem primary_of_identifier (same : token.kind = .identifier) :
    bare (primary (.ok token :: behind)) =
      .ok (.identifier token.text token.span, behind) := by
  rw [primary]
  simp only [same]
  rfl

theorem primary_of_leftParen (same : token.kind = .leftParen) :
    bare (primary (.ok token :: behind)) = (do
      let (value, middle) ← bare (expression behind)
      let (close, rest) ← bare (mark .rightParen .parenthesizedExpression middle)
      return (.parenthesized value (token.span.through close.span), rest)) := by
  rw [primary]
  simp only [same]
  refine bare_bind fun found => ?_
  exact bare_bind fun _ => rfl

theorem expression_of_assignment {name equal : Token} (isName : name.kind = .identifier)
    (isEqual : equal.kind = .equal) :
    bare (expression (.ok name :: .ok equal :: behind)) = (do
      let (value, rest) ← bare (expression behind)
      return (.assignment ⟨name.text, name.span⟩ value (name.span.through value.span), rest)) := by
  rw [expression, if_pos ⟨isName, isEqual⟩]
  exact bare_bind fun _ => rfl

theorem expression_of_other (other : ∀ name equal rest,
    stream = .ok name :: .ok equal :: rest → ¬ (name.kind = .identifier ∧ equal.kind = .equal)) :
    bare (expression stream) = bare (sum stream) := by
  unfold expression
  split
  · next name equal behind => rw [if_neg (other name equal behind rfl)]
  · rfl

end Equations

end Strata

end SableSyntax
