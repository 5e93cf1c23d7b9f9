/- SableSyntax/Proofs/Syntax/WellFormed
   digest: The trees that are fit to be written: names, unsigned numbers, operands that group. -/

import SableSyntax.Lexing.Cursor
import SableSyntax.Parsing.Expression
import SableSyntax.Proofs.Syntax.Signs

set_option autoImplicit false
set_option relaxedAutoImplicit false

namespace SableSyntax

/-- Whether a text can name something: a word that is no keyword. -/
def isName (text : String) : Bool :=
  match text.toList with
  | [] => false
  | c :: rest => isWordStart c && rest.all isWordChar && text != "func" && text != "var"

/-- Whether a type stands for itself: a name is not the name of a built-in type. -/
def TypeExpr.isWellFormed (type : TypeExpr) : Bool :=
  match type.base with
  | .primitive _ => true
  | .named name => isName name && (Primitive.ofName? name).isNone

def BinaryOperator.level : BinaryOperator → Precedence
  | .add | .sub => .additive
  | .mul | .div => .multiplicative

namespace Expression

def level : Expression → Precedence
  | .assignment _ _ _ => .assignment
  | .binary operator _ _ _ => operator.level
  | .identifier _ _ | .integer _ _ | .float _ _ | .parenthesized _ _ => .primary

/-- Whether names are names, numbers are finite and have no sign, and operands bind so tightly that
they need no parentheses: a left operand like the operator at least, a right operand tighter. -/
def isWellFormed : Expression → Bool
  | .assignment target value _ => isName target.name && value.isWellFormed
  | .binary operator left right _ =>
    decide (operator.level ≤ left.level) && decide (operator.level.next ≤ right.level) &&
      (left.isWellFormed && right.isWellFormed)
  | .identifier name _ => isName name
  | .integer value _ => decide (0 ≤ value.toInt)
  | .float value _ => value.isFinite && !value.isNegative
  | .parenthesized inner _ => inner.isWellFormed

end Expression

/-- Whether a statement is well formed and its expression nested no deeper than can be read. -/
def Statement.isWellFormed (statement : Statement) : Bool :=
  (match statement with
    | .variable name declaredType _ _ => isName name.name && declaredType.all TypeExpr.isWellFormed
    | .expression _ _ => true) &&
  (statement.content.isWellFormed && decide (statement.content.need ≤ maxNesting))

def Block.isWellFormed (block : Block) : Bool := block.statements.all Statement.isWellFormed

def Parameter.isWellFormed (parameter : Parameter) : Bool :=
  isName parameter.name.name && parameter.type.isWellFormed

def Function.isWellFormed (function : Function) : Bool :=
  isName function.name.name && function.parameters.all Parameter.isWellFormed &&
    (function.returnType.isWellFormed && function.body.all Block.isWellFormed)

def Program.isWellFormed (program : Program) : Bool := program.functions.all Function.isWellFormed

section Invariance

@[simp] theorem TypeExpr.isWellFormed_unplaced (type : TypeExpr) :
    type.unplaced.isWellFormed = type.isWellFormed := rfl

@[simp] theorem Expression.level_unplaced (e : Expression) : e.unplaced.level = e.level := by
  cases e <;> rfl

@[simp] theorem Expression.isWellFormed_unplaced (e : Expression) :
    e.unplaced.isWellFormed = e.isWellFormed := by
  induction e <;> simp_all [unplaced, isWellFormed, Identifier.unplaced]

@[simp] theorem Statement.isWellFormed_unplaced (statement : Statement) :
    statement.unplaced.isWellFormed = statement.isWellFormed := by
  simp only [isWellFormed, Statement.content_unplaced, Expression.isWellFormed_unplaced,
    Expression.need_unplaced]
  rcases statement with ⟨name, _ | type, initializer, span⟩ | ⟨value, span⟩ <;> rfl

@[simp] theorem Block.isWellFormed_unplaced (block : Block) :
    block.unplaced.isWellFormed = block.isWellFormed := by
  simp [unplaced, isWellFormed, Function.comp_def]

@[simp] theorem Parameter.isWellFormed_unplaced (parameter : Parameter) :
    parameter.unplaced.isWellFormed = parameter.isWellFormed := rfl

@[simp] theorem Function.isWellFormed_unplaced (function : Function) :
    function.unplaced.isWellFormed = function.isWellFormed := by
  cases h : function.body <;>
    simp [unplaced, isWellFormed, h, Function.comp_def, Identifier.unplaced]

@[simp] theorem Program.isWellFormed_unplaced (program : Program) :
    program.unplaced.isWellFormed = program.isWellFormed := by
  simp [unplaced, isWellFormed, Function.comp_def]

end Invariance

section Equality

theorem Statement.content_isWellFormed {statement : Statement} (good : statement.isWellFormed) :
    statement.content.isWellFormed := by
  simp only [isWellFormed, Bool.and_eq_true] at good
  exact good.2.1

theorem Block.expressions_isWellFormed {block : Block} (good : block.isWellFormed) :
    ∀ e ∈ block.expressions, e.isWellFormed := by
  refine List.forall_mem_map.2 fun statement member => ?_
  exact Statement.content_isWellFormed (List.all_eq_true.1 good statement member)

theorem Function.expressions_isWellFormed {function : Function} (good : function.isWellFormed) :
    ∀ e ∈ function.expressions, e.isWellFormed := by
  simp only [isWellFormed, Bool.and_eq_true] at good
  unfold expressions
  cases body : function.body with
  | none => exact List.forall_mem_nil _
  | some block =>
    rw [body] at good
    exact Block.expressions_isWellFormed good.2.2

theorem Program.expressions_isWellFormed {program : Program} (good : program.isWellFormed) :
    ∀ e ∈ program.expressions, e.isWellFormed := by
  refine List.forall_mem_flatMap.2 fun function member => ?_
  exact Function.expressions_isWellFormed (List.all_eq_true.1 good function member)

theorem Expression.isUnsigned_of_isWellFormed {e : Expression} (good : e.isWellFormed) :
    e.IsUnsigned := by
  induction e <;> simp_all [isWellFormed, IsUnsigned]

theorem Expression.isNumeric_of_isWellFormed {e : Expression} (good : e.isWellFormed) :
    e.IsNumeric := by
  induction e <;> simp_all [isWellFormed, IsNumeric, not_isNaN_of_isFinite]

theorem Program.beq_iff_unplaced_eq {a b : Program} (good : a.isWellFormed)
    (good' : b.isWellFormed) : (a == b) = true ↔ a.unplaced = b.unplaced := by
  have plain := fun e member =>
    Expression.isUnsigned_of_isWellFormed (expressions_isWellFormed good e member)
  have plain' := fun e member =>
    Expression.isUnsigned_of_isWellFormed (expressions_isWellFormed good' e member)
  have numeric := fun e member =>
    Expression.isNumeric_of_isWellFormed (expressions_isWellFormed good e member)
  exact ⟨fun equal => unplaced_eq_of_beq equal plain plain',
    fun same => beq_of_unplaced_eq same numeric⟩

end Equality

end SableSyntax
