/- SableSyntax/Proofs/Syntax/Nodes
   digest: The nodes of a tree: which stand directly below which, and which stand in it at all. -/

import SableSyntax.Traversal

set_option autoImplicit false
set_option relaxedAutoImplicit false

namespace SableSyntax

namespace Node

/-- The nodes directly below a node, in the order of the text. -/
def children : Node → List Node
  | .program node => node.functions.map .function
  | .function node =>
    .identifier node.name :: (node.parameters.map .parameter ++
      .typeExpr node.returnType :: node.body.toList.map .block)
  | .parameter node => [.identifier node.name, .typeExpr node.type]
  | .block node => node.statements.map .statement
  | .statement (.variable name declaredType initializer _) =>
    .identifier name :: (declaredType.toList.map .typeExpr ++ [.expression initializer])
  | .statement (.expression value _) => [.expression value]
  | .expression (.assignment target value _) => [.identifier target, .expression value]
  | .expression (.binary _ left right _) => [.expression left, .expression right]
  | .expression (.parenthesized inner _) => [.expression inner]
  | .expression (.identifier _ _) | .expression (.integer _ _) | .expression (.float _ _) => []
  | .typeExpr _ | .identifier _ => []

/-- The nodes that stand in a tree, at its root or anywhere below it. -/
inductive StandsIn (root : Node) : Node → Prop
  | self : StandsIn root root
  | child {parent node : Node} (above : StandsIn root parent) (member : node ∈ parent.children) :
    StandsIn root node

theorem kind_ne_program_of_mem_children {parent : Node} :
    ∀ node ∈ parent.children, node.kind ≠ .program := by
  cases parent with
  | statement parent => cases parent <;> simp [children, kind, or_imp, forall_and]
  | expression parent => cases parent <;> simp [children, kind]
  | _ => simp [children, kind, or_imp, forall_and]

theorem StandsIn.eq_of_kind_program {root node : Node} (inside : root.StandsIn node)
    (same : node.kind = .program) : node = root := by
  cases inside with
  | self => rfl
  | child _ member => exact absurd same (kind_ne_program_of_mem_children node member)

end Node

end SableSyntax
