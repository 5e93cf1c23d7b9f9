/- SableSyntax/Persistence/Plain
   digest: A library that stores values by way of whole JSON values. -/

import SableSyntax.Persistence.Library
import SableSyntax.Persistence.Storage

set_option autoImplicit false
set_option relaxedAutoImplicit false

namespace SableSyntax

def Part.toJson : Part → Json
  | ⟨.text, value⟩ => .string value
  | ⟨.size, value⟩ | ⟨.count, value⟩ => natToJson value
  | ⟨.int64, value⟩ => int64ToJson value
  | ⟨.float, value⟩ => value.toJson
  | ⟨.location, value⟩ => value.toJson
  | ⟨.span, value⟩ => value.toJson
  | ⟨.severity, value⟩ => value.toJson
  | ⟨.diagnostic, value⟩ => value.toJson
  | ⟨.identifier, value⟩ => value.toJson
  | ⟨.primitive, value⟩ => value.toJson
  | ⟨.typeName, value⟩ => value.toJson
  | ⟨.typeExpr, value⟩ => value.toJson
  | ⟨.operator, value⟩ => value.toJson
  | ⟨.expressionVariant, value⟩ => (value.placed default).variantToJson
  | ⟨.expression, value⟩ => value.toJson
  | ⟨.declaration, value⟩ => value.toJson
  | ⟨.statementVariant, value⟩ => value.toJson
  | ⟨.statement, value⟩ => value.toJson
  | ⟨.block, value⟩ => value.toJson
  | ⟨.parameter, value⟩ => value.toJson
  | ⟨.function, value⟩ => value.toJson
  | ⟨.program, value⟩ => value.toJson
  | ⟨.typeClause, value⟩ => optionToJson TypeExpr.toJson value
  | ⟨.body, value⟩ => optionToJson Block.toJson value
  | ⟨.notes, value⟩ => .array (value.map .string)
  | ⟨.statements, value⟩ => .array (value.map Statement.toJson)
  | ⟨.parameters, value⟩ => .array (value.map Parameter.toJson)
  | ⟨.functions, value⟩ => .array (value.map Function.toJson)

def Stored.ofJson? (levels : Nat) : (type : Stored) → Json → Option type.Value
  | .text => Json.string?
  | .size => Json.nat? UInt64.size
  | .count => Json.nat? UInt32.size
  | .int64 => int64OfJson?
  | .float => Binary64.ofJson?
  | .location => Location.ofJson? levels
  | .span => Span.ofJson? levels
  | .severity => Severity.ofJson?
  | .diagnostic => Diagnostic.ofJson? levels
  | .identifier => Identifier.ofJson? levels
  | .primitive => Primitive.ofJson?
  | .typeName => TypeName.ofJson? levels
  | .typeExpr => TypeExpr.ofJson? levels
  | .operator => BinaryOperator.ofJson?
  | .expressionVariant => ExpressionVariant.ofJson? levels
  | .expression => Expression.ofJson? levels
  | .declaration => Declaration.ofJson? levels
  | .statementVariant => StatementVariant.ofJson? levels
  | .statement => Statement.ofJson? levels
  | .block => Block.ofJson? levels
  | .parameter => Parameter.ofJson? levels
  | .function => Function.ofJson? levels
  | .program => Program.ofJson? levels
  | .typeClause => fun json => optionOfJson? (TypeExpr.ofJson? levels) (some json)
  | .body => fun json => optionOfJson? (Block.ofJson? levels) (some json)
  | .notes => listOfJson? (fun _ => Json.string?) levels
  | .statements => listOfJson? Statement.ofJson? levels
  | .parameters => listOfJson? Parameter.ofJson? levels
  | .functions => listOfJson? Function.ofJson? levels

/-- Reads and writes JSON values as a whole. It rounds decimals to the nearest float. -/
def JsonLibrary.plain : JsonLibrary where
  write part := part.toJson.write
  read? levels type text := Json.read? text >>= type.ofJson? levels
  limit := maxStoredDepth

end SableSyntax
