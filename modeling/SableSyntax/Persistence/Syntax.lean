/- SableSyntax/Persistence/Syntax
   digest: Trees as JSON values. -/

import SableSyntax.Persistence.Number
import SableSyntax.Persistence.Shape
import SableSyntax.Persistence.Token

set_option autoImplicit false
set_option relaxedAutoImplicit false

namespace SableSyntax

def taggedToJson (variant : String) (content : Json) : Json := .object [(variant, content)]

def nodeToJson (kind : Json) (span : Span) : Json :=
  .object [("kind", kind), ("span", span.toJson)]

/-- A part that may be missing is stored as null. -/
def optionToJson {α : Type} (toJson : α → Json) : Option α → Json
  | none => .null
  | some value => toJson value

def optionOfJson? {α : Type} (ofJson? : Json → Option α) : Option Json → Option (Option α)
  | none => some none
  | some .null => some none
  | some json => (ofJson? json).map some

def listOfJson? {α : Type} (ofJson? : Nat → Json → Option α) :
    (levels : Nat) → Json → Option (List α)
  | 0, _ => none
  | levels + 1, json => json.items? >>= fun items => items.mapM (ofJson? levels)

namespace Identifier

def toJson (identifier : Identifier) : Json :=
  .object [("name", .string identifier.name), ("span", identifier.span.toJson)]

def ofJson? : (levels : Nat) → Json → Option Identifier
  | 0, _ => none
  | levels + 1, json => do
    match ← json.fields? ["name", "span"] with
    | [some name, some span] => return ⟨← name.string?, ← Span.ofJson? levels span⟩
    | _ => none

end Identifier

namespace Primitive

def toJson (primitive : Primitive) : Json := .string primitive.storedName

def ofJson? (json : Json) : Option Primitive := do
  let name ← json.name?
  all.find? fun primitive => primitive.storedName == name

end Primitive

namespace TypeName

def toJson : TypeName → Json
  | .primitive builtin => taggedToJson "Primitive" builtin.toJson
  | .named name => taggedToJson "Named" (.string name)

def ofJson? : (levels : Nat) → Json → Option TypeName
  | 0, _ => none
  | _ + 1, json =>
    match json.choice? with
    | some ("Primitive", some content) => (Primitive.ofJson? content).map .primitive
    | some ("Named", some content) => content.string?.map .named
    | _ => none

end TypeName

namespace TypeExpr

def toJson (type : TypeExpr) : Json :=
  .object [("base", type.base.toJson), ("pointer_depth", natToJson type.pointerDepth),
    ("span", type.span.toJson)]

def ofJson? : (levels : Nat) → Json → Option TypeExpr
  | 0, _ => none
  | levels + 1, json => do
    match ← json.fields? ["base", "pointer_depth", "span"] with
    | [some base, some pointerDepth, some span] =>
      return ⟨← TypeName.ofJson? levels base, ← pointerDepth.nat? UInt32.size,
        ← Span.ofJson? levels span⟩
    | _ => none

end TypeExpr

namespace BinaryOperator

def toJson (operator : BinaryOperator) : Json := .string operator.storedName

def ofJson? (json : Json) : Option BinaryOperator := do
  let name ← json.name?
  all.find? fun operator => operator.storedName == name

end BinaryOperator

namespace Expression

def variantToJson : Expression → Json
  | .assignment target value _ =>
    taggedToJson "Assignment"
      (.object [("target", target.toJson), ("value", nodeToJson value.variantToJson value.span)])
  | .binary operator left right _ =>
    taggedToJson "Binary"
      (.object [("op", operator.toJson), ("left", nodeToJson left.variantToJson left.span),
        ("right", nodeToJson right.variantToJson right.span)])
  | .identifier name _ => taggedToJson "Identifier" (.string name)
  | .integer value _ => taggedToJson "IntegerLiteral" (int64ToJson value)
  | .float value _ => taggedToJson "FloatLiteral" value.toJson
  | .parenthesized inner _ =>
    taggedToJson "Parenthesized" (nodeToJson inner.variantToJson inner.span)

def toJson (expression : Expression) : Json := nodeToJson expression.variantToJson expression.span

end Expression

mutual

/-- A variant without fields of its own has its content one level deeper. -/
def ExpressionVariant.ofJson? : (levels : Nat) → Json → Option ExpressionVariant
  | 0, _ => none
  | levels + 1, json => do
    match json.choice? with
    | some (variant, some content) =>
      match variant with
      | "Identifier" => return .identifier (← content.string?)
      | "IntegerLiteral" => return .integer (← int64OfJson? content)
      | "FloatLiteral" => return .float (← Binary64.ofJson? content)
      | "Parenthesized" => return .parenthesized (← Expression.ofJson? levels content)
      | _ => ExpressionVariant.ofFields? levels variant content
    | _ => none

def ExpressionVariant.ofFields? :
    (levels : Nat) → (variant : String) → (content : Json) → Option ExpressionVariant
  | 0, _, _ => none
  | levels + 1, variant, content => do
    match variant with
    | "Assignment" =>
      match ← content.fields? ["target", "value"] with
      | [some target, some value] =>
        return .assignment (← Identifier.ofJson? levels target) (← Expression.ofJson? levels value)
      | _ => none
    | "Binary" =>
      match ← content.fields? ["op", "left", "right"] with
      | [some operator, some left, some right] =>
        return .binary (← BinaryOperator.ofJson? operator) (← Expression.ofJson? levels left)
          (← Expression.ofJson? levels right)
      | _ => none
    | _ => none

def Expression.ofJson? : (levels : Nat) → Json → Option Expression
  | 0, _ => none
  | levels + 1, json => do
    match ← json.fields? ["kind", "span"] with
    | [some kind, some span] =>
      return (← ExpressionVariant.ofJson? levels kind).placed (← Span.ofJson? levels span)
    | _ => none

end

namespace Declaration

def toJson (declaration : Declaration) : Json :=
  .object [("name", declaration.name.toJson),
    ("declared_type", optionToJson TypeExpr.toJson declaration.declaredType),
    ("initializer", declaration.initializer.toJson)]

def ofJson? : (levels : Nat) → Json → Option Declaration
  | 0, _ => none
  | levels + 1, json => do
    match ← json.fields? ["name", "declared_type", "initializer"] with
    | [some name, declaredType, some initializer] =>
      return ⟨← Identifier.ofJson? levels name,
        ← optionOfJson? (TypeExpr.ofJson? levels) declaredType,
        ← Expression.ofJson? levels initializer⟩
    | _ => none

end Declaration

namespace StatementVariant

def toJson : StatementVariant → Json
  | .declaration declared => taggedToJson "VariableDeclaration" declared.toJson
  | .expression value => taggedToJson "Expression" value.toJson

def ofJson? : (levels : Nat) → Json → Option StatementVariant
  | 0, _ => none
  | levels + 1, json =>
    match json.choice? with
    | some ("VariableDeclaration", some content) =>
      (Declaration.ofJson? levels content).map .declaration
    | some ("Expression", some content) => (Expression.ofJson? levels content).map .expression
    | _ => none

end StatementVariant

namespace Statement

def toJson (statement : Statement) : Json := nodeToJson statement.variant.toJson statement.span

def ofJson? : (levels : Nat) → Json → Option Statement
  | 0, _ => none
  | levels + 1, json => do
    match ← json.fields? ["kind", "span"] with
    | [some kind, some span] =>
      return (← StatementVariant.ofJson? levels kind).placed (← Span.ofJson? levels span)
    | _ => none

end Statement

namespace Block

def toJson (block : Block) : Json :=
  .object [("statements", .array (block.statements.map Statement.toJson)),
    ("span", block.span.toJson)]

def ofJson? : (levels : Nat) → Json → Option Block
  | 0, _ => none
  | levels + 1, json => do
    match ← json.fields? ["statements", "span"] with
    | [some statements, some span] =>
      return ⟨← listOfJson? Statement.ofJson? levels statements, ← Span.ofJson? levels span⟩
    | _ => none

end Block

namespace Parameter

def toJson (parameter : Parameter) : Json :=
  .object [("name", parameter.name.toJson), ("param_type", parameter.type.toJson),
    ("span", parameter.span.toJson)]

def ofJson? : (levels : Nat) → Json → Option Parameter
  | 0, _ => none
  | levels + 1, json => do
    match ← json.fields? ["name", "param_type", "span"] with
    | [some name, some type, some span] =>
      return ⟨← Identifier.ofJson? levels name, ← TypeExpr.ofJson? levels type,
        ← Span.ofJson? levels span⟩
    | _ => none

end Parameter

namespace Function

def toJson (function : Function) : Json :=
  .object [("name", function.name.toJson),
    ("parameters", .array (function.parameters.map Parameter.toJson)),
    ("return_type", function.returnType.toJson), ("body", optionToJson Block.toJson function.body),
    ("span", function.span.toJson)]

def ofJson? : (levels : Nat) → Json → Option Function
  | 0, _ => none
  | levels + 1, json => do
    match ← json.fields? ["name", "parameters", "return_type", "body", "span"] with
    | [some name, some parameters, some returnType, body, some span] =>
      return ⟨← Identifier.ofJson? levels name, ← listOfJson? Parameter.ofJson? levels parameters,
        ← TypeExpr.ofJson? levels returnType, ← optionOfJson? (Block.ofJson? levels) body,
        ← Span.ofJson? levels span⟩
    | _ => none

end Function

namespace Program

def toJson (program : Program) : Json :=
  .object [("functions", .array (program.functions.map Function.toJson)),
    ("span", program.span.toJson)]

def ofJson? : (levels : Nat) → Json → Option Program
  | 0, _ => none
  | levels + 1, json => do
    match ← json.fields? ["functions", "span"] with
    | [some functions, some span] =>
      return ⟨← listOfJson? Function.ofJson? levels functions, ← Span.ofJson? levels span⟩
    | _ => none

end Program

end SableSyntax
