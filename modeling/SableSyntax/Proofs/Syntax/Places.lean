/- SableSyntax/Proofs/Syntax/Places
   digest: Trees without the places they stand at, and what of a tree does not depend on places. -/

import SableSyntax.Proofs.Nesting.Levels
import SableSyntax.Syntax.Printing

set_option autoImplicit false
set_option relaxedAutoImplicit false

namespace SableSyntax

def Identifier.unplaced (identifier : Identifier) : Identifier := ⟨identifier.name, default⟩

def TypeExpr.unplaced (type : TypeExpr) : TypeExpr := ⟨type.base, type.pointerDepth, default⟩

def Expression.unplaced : Expression → Expression
  | .assignment target value _ => .assignment target.unplaced value.unplaced default
  | .binary operator left right _ => .binary operator left.unplaced right.unplaced default
  | .identifier name _ => .identifier name default
  | .integer value _ => .integer value default
  | .float value _ => .float value default
  | .parenthesized inner _ => .parenthesized inner.unplaced default

def Statement.unplaced : Statement → Statement
  | .variable name declaredType initializer _ =>
    .variable name.unplaced (declaredType.map TypeExpr.unplaced) initializer.unplaced default
  | .expression value _ => .expression value.unplaced default

def Block.unplaced (block : Block) : Block := ⟨block.statements.map Statement.unplaced, default⟩

def Parameter.unplaced (parameter : Parameter) : Parameter :=
  ⟨parameter.name.unplaced, parameter.type.unplaced, default⟩

def Function.unplaced (function : Function) : Function :=
  ⟨function.name.unplaced, function.parameters.map Parameter.unplaced,
    function.returnType.unplaced, function.body.map Block.unplaced, default⟩

def Program.unplaced (program : Program) : Program :=
  ⟨program.functions.map Function.unplaced, default⟩

section Expressions

def Statement.content : Statement → Expression
  | .variable _ _ initializer _ => initializer
  | .expression value _ => value

def Block.expressions (block : Block) : List Expression := block.statements.map Statement.content

def Function.expressions (function : Function) : List Expression :=
  function.body.elim [] Block.expressions

def Program.expressions (program : Program) : List Expression :=
  program.functions.flatMap Function.expressions

theorem Statement.content_unplaced (statement : Statement) :
    statement.unplaced.content = statement.content.unplaced := by
  cases statement <;> rfl

theorem Block.expressions_unplaced (block : Block) :
    block.unplaced.expressions = block.expressions.map Expression.unplaced := by
  simp [expressions, unplaced, Function.comp_def, Statement.content_unplaced]

theorem Function.expressions_unplaced (function : Function) :
    function.unplaced.expressions = function.expressions.map Expression.unplaced := by
  cases h : function.body <;> simp [expressions, unplaced, h, Block.expressions_unplaced]

theorem Program.expressions_unplaced (program : Program) :
    program.unplaced.expressions = program.expressions.map Expression.unplaced := by
  simp [expressions, unplaced, List.flatMap_map, List.map_flatMap, Function.expressions_unplaced]

end Expressions

section Invariance

@[simp] theorem Expression.leftSpine_unplaced (e : Expression) :
    e.unplaced.leftSpine = e.leftSpine := by
  induction e <;> simp_all [unplaced, leftSpine]

@[simp] theorem Expression.need_unplaced (e : Expression) : e.unplaced.need = e.need := by
  induction e <;> simp_all [unplaced, need]

@[simp] theorem TypeExpr.text_unplaced (type : TypeExpr) : type.unplaced.text = type.text := rfl

@[simp] theorem Expression.text_unplaced (e : Expression) : e.unplaced.text = e.text := by
  induction e <;> simp_all [unplaced, text, Identifier.text, Identifier.unplaced]

@[simp] theorem Statement.text_unplaced (statement : Statement) :
    statement.unplaced.text = statement.text := by
  rcases statement with ⟨name, _ | type, initializer, span⟩ | ⟨value, span⟩ <;>
    simp [unplaced, text, typeClause, Identifier.text, Identifier.unplaced]

@[simp] theorem Block.text_unplaced (block : Block) : block.unplaced.text = block.text := by
  simp [unplaced, text, Function.comp_def]

@[simp] theorem Parameter.text_unplaced (parameter : Parameter) :
    parameter.unplaced.text = parameter.text := rfl

@[simp] theorem Function.text_unplaced (function : Function) :
    function.unplaced.text = function.text := by
  cases h : function.body <;>
    simp [unplaced, text, h, bodyClause, Function.comp_def, Identifier.text, Identifier.unplaced]

@[simp] theorem Program.text_unplaced (program : Program) :
    program.unplaced.text = program.text := by
  simp [unplaced, text, Function.comp_def]

end Invariance

section Agreement

def Expression.IsNumeric : Expression → Prop
  | .assignment _ value _ => value.IsNumeric
  | .binary _ left right _ => left.IsNumeric ∧ right.IsNumeric
  | .identifier _ _ | .integer _ _ => True
  | .float value _ => value.isNaN = false
  | .parenthesized inner _ => inner.IsNumeric

theorem Binary64.beq_self {x : Binary64} (number : x.isNaN = false) : (x == x) = true := by
  simp [BEq.beq, number]

theorem Expression.agrees_of_unplaced_eq {a b : Expression} (same : a.unplaced = b.unplaced)
    (numeric : a.IsNumeric) : a.agrees b := by
  induction a generalizing b with
  | assignment target value span ih =>
    cases b <;> simp only [unplaced, Identifier.unplaced, reduceCtorEq, assignment.injEq,
      Identifier.mk.injEq] at same
    simp [agrees, BEq.beq, same.1.1, ih same.2.1 numeric]
  | binary operator left right span ihLeft ihRight =>
    cases b <;> simp only [unplaced, reduceCtorEq, binary.injEq] at same
    simp [agrees, same.1, ihLeft same.2.1 numeric.1, ihRight same.2.2.1 numeric.2]
  | identifier name span =>
    cases b <;> simp only [unplaced, reduceCtorEq, identifier.injEq] at same
    simp [agrees, same.1]
  | integer value span =>
    cases b <;> simp only [unplaced, reduceCtorEq, integer.injEq] at same
    simp [agrees, same.1]
  | float value span =>
    cases b <;> simp only [unplaced, reduceCtorEq, float.injEq] at same
    simp only [agrees, ← same.1]
    exact Binary64.beq_self numeric
  | parenthesized inner span ih =>
    cases b <;> simp only [unplaced, reduceCtorEq, parenthesized.injEq] at same
    simp [agrees, ih same.1 numeric]

theorem list_beq_of_map_eq {α β : Type} [BEq α] {f : α → β} {as bs : List α}
    (same : as.map f = bs.map f) (each : ∀ a ∈ as, ∀ b, f a = f b → (a == b) = true) :
    (as == bs) = true := by
  induction as generalizing bs with
  | nil => cases bs <;> simp_all
  | cons a as ih =>
    cases bs with
    | nil => simp at same
    | cons b bs =>
      simp only [List.map_cons, List.cons.injEq] at same
      simp only [List.cons_beq_cons, Bool.and_eq_true]
      exact ⟨each a List.mem_cons_self b same.1,
        ih same.2 fun a member => each a (List.mem_cons_of_mem _ member)⟩

theorem TypeExpr.beq_of_unplaced_eq {a b : TypeExpr} (same : a.unplaced = b.unplaced) :
    (a == b) = true := by
  simp only [unplaced, mk.injEq, and_true] at same
  simp [BEq.beq, same]

theorem Identifier.beq_of_unplaced_eq {a b : Identifier} (same : a.unplaced = b.unplaced) :
    (a == b) = true := by
  simp only [unplaced, mk.injEq, and_true] at same
  simp [BEq.beq, same]

theorem Statement.beq_of_unplaced_eq {a b : Statement} (same : a.unplaced = b.unplaced)
    (numeric : a.content.IsNumeric) : (a == b) = true := by
  rcases a with ⟨name, type, initializer, span⟩ | ⟨value, span⟩ <;>
    rcases b with ⟨name', type', initializer', span'⟩ | ⟨value', span'⟩ <;>
    simp only [unplaced, reduceCtorEq, variable.injEq, expression.injEq, and_true] at same
  · have sameType : (type == type') = true := by
      cases type <;> cases type' <;> simp_all [TypeExpr.beq_of_unplaced_eq]
    have sameValue : (initializer == initializer') = true :=
      Expression.agrees_of_unplaced_eq same.2.2 numeric
    show (name == name' && type == type' && initializer == initializer') = true
    rw [Identifier.beq_of_unplaced_eq same.1, sameType, sameValue]
    rfl
  · exact Expression.agrees_of_unplaced_eq same numeric

theorem Block.beq_of_unplaced_eq {a b : Block} (same : a.unplaced = b.unplaced)
    (numeric : ∀ e ∈ a.expressions, e.IsNumeric) : (a == b) = true := by
  simp only [unplaced, mk.injEq, and_true] at same
  refine list_beq_of_map_eq same fun statement member other same' => ?_
  exact Statement.beq_of_unplaced_eq same' (numeric _ (List.mem_map_of_mem member))

theorem Parameter.beq_of_unplaced_eq {a b : Parameter} (same : a.unplaced = b.unplaced) :
    (a == b) = true := by
  simp only [unplaced, mk.injEq, and_true] at same
  show (a.name == b.name && a.type == b.type) = true
  rw [Identifier.beq_of_unplaced_eq same.1, TypeExpr.beq_of_unplaced_eq same.2]
  rfl

theorem Function.beq_of_unplaced_eq {a b : Function} (same : a.unplaced = b.unplaced)
    (numeric : ∀ e ∈ a.expressions, e.IsNumeric) : (a == b) = true := by
  simp only [unplaced, mk.injEq, and_true] at same
  have sameBody : (a.body == b.body) = true := by
    simp only [expressions] at numeric
    cases ha : a.body <;> cases hb : b.body <;> simp_all [Block.beq_of_unplaced_eq]
  show (a.name == b.name && a.parameters == b.parameters && a.returnType == b.returnType &&
    a.body == b.body) = true
  rw [Identifier.beq_of_unplaced_eq same.1, TypeExpr.beq_of_unplaced_eq same.2.2.1, sameBody,
    list_beq_of_map_eq same.2.1 fun _ _ _ => Parameter.beq_of_unplaced_eq]
  rfl

theorem Program.beq_of_unplaced_eq {a b : Program} (same : a.unplaced = b.unplaced)
    (numeric : ∀ e ∈ a.expressions, e.IsNumeric) : (a == b) = true := by
  simp only [unplaced, mk.injEq, and_true] at same
  refine list_beq_of_map_eq same fun function member other same' => ?_
  exact Function.beq_of_unplaced_eq same' fun e inside =>
    numeric e (List.mem_flatMap_of_mem member inside)

end Agreement

end SableSyntax
