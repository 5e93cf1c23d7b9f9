/- SableSyntax/Proofs/Syntax/Moves
   digest: Tokens, errors and trees with all their places moved, and what a move leaves alone. -/

import SableSyntax.Proofs.Lexing.Steps
import SableSyntax.Proofs.Syntax.Places

set_option autoImplicit false
set_option relaxedAutoImplicit false

namespace SableSyntax

def Location.below (above : List Char) (place : Location) : Location :=
  ⟨byteLength above + 1 + place.offset, above.count '\n' + 1 + place.line, place.column⟩

theorem Location.below_start (above : List Char) :
    start.below above = start.after (above ++ ['\n']) := by
  have feed : lastLine (above ++ ['\n']) = [] := by simp [lastLine]
  have bytes : '\n'.utf8Size = 1 := by decide
  rw [start_after, feed, below, start]
  simp [bytes, Nat.add_assoc, Nat.add_comm 1]

theorem Location.below_advance (above : List Char) (place : Location) (c : Char) :
    (place.advance c).below above = (place.below above).advance c := by
  unfold advance below
  split <;> simp [Nat.add_assoc]

section Moves

-- Where each place is moved to.
variable (move : Location → Location)

def Span.moved (span : Span) : Span := ⟨move span.start, move span.stop⟩

def Token.moved (token : Token) : Token := ⟨token.toLexeme, token.span.moved move⟩

def SyntaxError.moved (error : SyntaxError) : SyntaxError := ⟨error.fault, error.span.moved move⟩

def LexResult.moved : LexResult → LexResult
  | .ok token => .ok (token.moved move)
  | .error error => .error (error.moved move)

def Identifier.moved (identifier : Identifier) : Identifier :=
  ⟨identifier.name, identifier.span.moved move⟩

def TypeExpr.moved (type : TypeExpr) : TypeExpr :=
  ⟨type.base, type.pointerDepth, type.span.moved move⟩

def Expression.moved : Expression → Expression
  | .assignment target value span =>
    .assignment (target.moved move) value.moved (span.moved move)
  | .binary operator left right span => .binary operator left.moved right.moved (span.moved move)
  | .identifier name span => .identifier name (span.moved move)
  | .integer value span => .integer value (span.moved move)
  | .float value span => .float value (span.moved move)
  | .parenthesized inner span => .parenthesized inner.moved (span.moved move)

def Statement.moved : Statement → Statement
  | .variable name declaredType initializer span =>
    .variable (name.moved move) (declaredType.map (TypeExpr.moved move)) (initializer.moved move)
      (span.moved move)
  | .expression value span => .expression (value.moved move) (span.moved move)

def Block.moved (block : Block) : Block :=
  ⟨block.statements.map (Statement.moved move), block.span.moved move⟩

def Parameter.moved (parameter : Parameter) : Parameter :=
  ⟨parameter.name.moved move, parameter.type.moved move, parameter.span.moved move⟩

def Function.moved (function : Function) : Function :=
  ⟨function.name.moved move, function.parameters.map (Parameter.moved move),
    function.returnType.moved move, function.body.map (Block.moved move),
    function.span.moved move⟩

def Program.moved (program : Program) : Program :=
  ⟨program.functions.map (Function.moved move), program.span.moved move⟩

section Spans

variable {move}

@[simp] theorem Span.moved_through (first last : Span) :
    (first.through last).moved move = (first.moved move).through (last.moved move) := rfl

@[simp] theorem Span.moved_point (place : Location) :
    (point place).moved move = point (move place) := rfl

@[simp] theorem Token.span_moved (token : Token) :
    (token.moved move).span = token.span.moved move := rfl

@[simp] theorem Token.toLexeme_moved (token : Token) :
    (token.moved move).toLexeme = token.toLexeme := rfl

@[simp] theorem LexResult.span_moved (result : LexResult) :
    (result.moved move).span = result.span.moved move := by
  cases result <;> rfl

@[simp] theorem LexResult.unplaced_moved (result : LexResult) :
    (result.moved move).unplaced = result.unplaced := by
  cases result <;> rfl

theorem map_moved_ok (tokens : List Token) : (tokens.map Except.ok).map (LexResult.moved move) =
    (tokens.map (Token.moved move)).map .ok := by
  rw [List.map_map, List.map_map]
  rfl

@[simp] theorem Expression.span_moved (e : Expression) :
    (e.moved move).span = e.span.moved move := by
  cases e <;> rfl

@[simp] theorem Function.span_moved (function : Function) :
    (function.moved move).span = function.span.moved move := rfl

end Spans

theorem getLast?_map_span_moved {α : Type} (span : α → Span) (place : α → α)
    (same : ∀ value, span (place value) = (span value).moved move) (values : List α)
    (other : Span) : (((values.map place).getLast?.map span).getD (other.moved move)) =
      ((values.getLast?.map span).getD other).moved move := by
  rw [List.getLast?_map]
  cases values.getLast? with
  | none => rfl
  | some value => exact same value

theorem Expression.leftSpine_moved (e : Expression) : (e.moved move).leftSpine = e.leftSpine := by
  induction e <;> simp_all [moved, leftSpine]

theorem Expression.need_moved (e : Expression) : (e.moved move).need = e.need := by
  induction e <;> simp_all [moved, need, leftSpine_moved]

end Moves

end SableSyntax
