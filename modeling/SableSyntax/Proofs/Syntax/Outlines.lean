/- SableSyntax/Proofs/Syntax/Outlines
   digest: The stretches of a tree's nodes, nested like the nodes and in the order of the text. -/

import SableSyntax.Syntax.Program

set_option autoImplicit false
set_option relaxedAutoImplicit false

namespace SableSyntax

inductive Outline
  | nil
  | node (span : Span) (inside behind : Outline)
  deriving DecidableEq, Repr

namespace Outline

def append : Outline → Outline → Outline
  | .nil, other => other
  | .node span inside behind, other => .node span inside (behind.append other)

instance : Append Outline := ⟨append⟩

@[simp] theorem nil_append (outline : Outline) : nil ++ outline = outline := rfl

@[simp] theorem node_append (span : Span) (inside behind outline : Outline) :
    node span inside behind ++ outline = node span inside (behind ++ outline) := rfl

@[simp] theorem append_nil (outline : Outline) : outline ++ nil = outline := by
  induction outline with
  | nil => rfl
  | node span inside behind _ ih => rw [node_append, ih]

def single (span : Span) (inside : Outline) : Outline := .node span inside .nil

def join (outlines : List Outline) : Outline := outlines.foldr append .nil

@[simp] theorem join_nil : join [] = nil := rfl

@[simp] theorem join_cons (outline : Outline) (outlines : List Outline) :
    join (outline :: outlines) = outline ++ join outlines := rfl

def spans : Outline → List Span
  | .nil => []
  | .node span inside behind => span :: (inside.spans ++ behind.spans)

end Outline

def Identifier.outline (identifier : Identifier) : Outline := .single identifier.span .nil

def TypeExpr.outline (type : TypeExpr) : Outline := .single type.span .nil

def Expression.outline : Expression → Outline
  | .assignment target value span => .single span (target.outline ++ value.outline)
  | .binary _ left right span => .single span (left.outline ++ right.outline)
  | .parenthesized inner span => .single span inner.outline
  | .identifier _ span | .integer _ span | .float _ span => .single span .nil

def Statement.outline : Statement → Outline
  | .variable name declaredType initializer span =>
    .single span
      (name.outline ++ (.join (declaredType.toList.map TypeExpr.outline) ++ initializer.outline))
  | .expression value span => .single span value.outline

def Block.outline (block : Block) : Outline :=
  .single block.span (.join (block.statements.map Statement.outline))

def Parameter.outline (parameter : Parameter) : Outline :=
  .single parameter.span (parameter.name.outline ++ parameter.type.outline)

def Function.outline (function : Function) : Outline :=
  .single function.span
    (function.name.outline ++ (.join (function.parameters.map Parameter.outline) ++
      (function.returnType.outline ++ .join (function.body.toList.map Block.outline))))

def Program.outline (program : Program) : Outline :=
  .single program.span (.join (program.functions.map Function.outline))

end SableSyntax
