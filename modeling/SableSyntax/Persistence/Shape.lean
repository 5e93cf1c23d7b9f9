/- SableSyntax/Persistence/Shape
   digest: What the types of stored values are declared to be made of. -/

import SableSyntax.Diagnostic
import SableSyntax.Syntax.Program

set_option autoImplicit false
set_option relaxedAutoImplicit false

namespace SableSyntax

inductive ExpressionVariant
  | assignment (target : Identifier) (value : Expression)
  | binary (operator : BinaryOperator) (left right : Expression)
  | identifier (name : String)
  | integer (value : Int64)
  | float (value : Binary64)
  | parenthesized (inner : Expression)
  deriving DecidableEq, Repr

def Expression.variant : Expression → ExpressionVariant
  | .assignment target value _ => .assignment target value
  | .binary operator left right _ => .binary operator left right
  | .identifier name _ => .identifier name
  | .integer value _ => .integer value
  | .float value _ => .float value
  | .parenthesized inner _ => .parenthesized inner

def ExpressionVariant.placed (span : Span) : ExpressionVariant → Expression
  | .assignment target value => .assignment target value span
  | .binary operator left right => .binary operator left right span
  | .identifier name => .identifier name span
  | .integer value => .integer value span
  | .float value => .float value span
  | .parenthesized inner => .parenthesized inner span

@[simp] theorem Expression.placed_variant (expression : Expression) :
    expression.variant.placed expression.span = expression := by
  cases expression <;> rfl

structure Declaration where
  name : Identifier
  declaredType : Option TypeExpr
  initializer : Expression
  deriving DecidableEq, Repr

inductive StatementVariant
  | declaration (declaration : Declaration) | expression (value : Expression)
  deriving DecidableEq, Repr

def Statement.variant : Statement → StatementVariant
  | .variable name declaredType initializer _ => .declaration ⟨name, declaredType, initializer⟩
  | .expression value _ => .expression value

def StatementVariant.placed (span : Span) : StatementVariant → Statement
  | .declaration ⟨name, declaredType, initializer⟩ => .variable name declaredType initializer span
  | .expression value => .expression value span

@[simp] theorem Statement.placed_variant (statement : Statement) :
    statement.variant.placed statement.span = statement := by
  cases statement <;> rfl

/-- The types of stored values and of their parts. -/
inductive Stored
  | text | size | count | int64 | float
  | location | span | severity | diagnostic | identifier | primitive | typeName | typeExpr
  | operator | expressionVariant | expression | declaration | statementVariant | statement
  | block | parameter | function | program
  | typeClause | body | notes | statements | parameters | functions
  deriving DecidableEq, Repr

namespace Stored

/-- A `size` is a number of 64 bits, a `count` one of 32 bits. -/
abbrev Value : Stored → Type
  | .text => String
  | .size | .count => Nat
  | .int64 => Int64
  | .float => Binary64
  | .location => Location
  | .span => Span
  | .severity => Severity
  | .diagnostic => Diagnostic
  | .identifier => Identifier
  | .primitive => Primitive
  | .typeName => TypeName
  | .typeExpr => TypeExpr
  | .operator => BinaryOperator
  | .expressionVariant => ExpressionVariant
  | .expression => Expression
  | .declaration => Declaration
  | .statementVariant => StatementVariant
  | .statement => Statement
  | .block => Block
  | .parameter => Parameter
  | .function => Function
  | .program => Program
  | .typeClause => Option TypeExpr
  | .body => Option Block
  | .notes => List String
  | .statements => List Statement
  | .parameters => List Parameter
  | .functions => List Function

/-- Whether the numbers of a type can be of this size. Floats have to be finite. -/
def InRange : (type : Stored) → type.Value → Prop
  | .size, value => value < UInt64.size
  | .count, value => value < UInt32.size
  | .float, value => value.isFinite
  | _, _ => True

instance : (type : Stored) → (value : type.Value) → Decidable (type.InRange value)
  | .size, value => inferInstanceAs (Decidable (value < UInt64.size))
  | .count, value => inferInstanceAs (Decidable (value < UInt32.size))
  | .float, value => inferInstanceAs (Decidable (value.isFinite = true))
  | .text, _ | .int64, _ | .location, _ | .span, _ | .severity, _ | .diagnostic, _
  | .identifier, _ | .primitive, _ | .typeName, _ | .typeExpr, _ | .operator, _
  | .expressionVariant, _ | .expression, _ | .declaration, _ | .statementVariant, _
  | .statement, _ | .block, _ | .parameter, _ | .function, _ | .program, _ | .typeClause, _
  | .body, _ | .notes, _ | .statements, _ | .parameters, _ | .functions, _ => isTrue trivial

end Stored

/-- A value that is stored as a whole or within another one. -/
structure Part where
  type : Stored
  value : type.Value

/-- How a value is made up of parts: a record has named fields, and a choice is told by the name
of its variant, with a content or with fields of its own if it has any. -/
inductive Shape
  | scalar
  | record (fields : List (String × Part))
  | name (variant : String)
  | tagged (variant : String) (content : Part)
  | taggedRecord (variant : String) (fields : List (String × Part))
  | absent
  | present (content : Part)
  | items (parts : List Part)

namespace Shape

def parts : Shape → List Part
  | .scalar | .name _ | .absent => []
  | .record fields | .taggedRecord _ fields => fields.map Prod.snd
  | .tagged _ content | .present content => [content]
  | .items parts => parts

def fieldNames : Shape → List String
  | .record fields | .taggedRecord _ fields => fields.map Prod.fst
  | _ => []

def levels : Shape → Nat
  | .scalar | .name _ | .absent | .present _ => 0
  | .record _ | .tagged _ _ | .items _ => 1
  | .taggedRecord _ _ => 2

end Shape

namespace Primitive

def all : List Primitive :=
  [.i8, .i16, .i32, .i64, .u8, .u16, .u32, .u64, .f32, .f64, .bool, .void]

def storedName : Primitive → String
  | .i8 => "I8"
  | .i16 => "I16"
  | .i32 => "I32"
  | .i64 => "I64"
  | .u8 => "U8"
  | .u16 => "U16"
  | .u32 => "U32"
  | .u64 => "U64"
  | .f32 => "F32"
  | .f64 => "F64"
  | .bool => "Bool"
  | .void => "Void"

end Primitive

namespace BinaryOperator

def all : List BinaryOperator := [.add, .sub, .mul, .div]

def storedName : BinaryOperator → String
  | .add => "Add"
  | .sub => "Sub"
  | .mul => "Mul"
  | .div => "Div"

end BinaryOperator

def Part.shape : Part → Shape
  | ⟨.text, _⟩ | ⟨.size, _⟩ | ⟨.count, _⟩ | ⟨.int64, _⟩ | ⟨.float, _⟩ => .scalar
  | ⟨.location, place⟩ => .record
      [("offset", ⟨.size, place.offset⟩), ("line", ⟨.count, place.line⟩),
        ("column", ⟨.count, place.column⟩)]
  | ⟨.span, span⟩ => .record [("start", ⟨.location, span.start⟩), ("end", ⟨.location, span.stop⟩)]
  | ⟨.severity, .error⟩ => .name "Error"
  | ⟨.diagnostic, diagnostic⟩ => .record
      [("severity", ⟨.severity, diagnostic.severity⟩), ("message", ⟨.text, diagnostic.message⟩),
        ("span", ⟨.span, diagnostic.span⟩), ("notes", ⟨.notes, diagnostic.notes⟩)]
  | ⟨.identifier, identifier⟩ => .record
      [("name", ⟨.text, identifier.name⟩), ("span", ⟨.span, identifier.span⟩)]
  | ⟨.primitive, primitive⟩ => .name primitive.storedName
  | ⟨.typeName, .primitive builtin⟩ => .tagged "Primitive" ⟨.primitive, builtin⟩
  | ⟨.typeName, .named name⟩ => .tagged "Named" ⟨.text, name⟩
  | ⟨.typeExpr, type⟩ => .record
      [("base", ⟨.typeName, type.base⟩), ("pointer_depth", ⟨.count, type.pointerDepth⟩),
        ("span", ⟨.span, type.span⟩)]
  | ⟨.operator, operator⟩ => .name operator.storedName
  | ⟨.expressionVariant, .assignment target value⟩ => .taggedRecord "Assignment"
      [("target", ⟨.identifier, target⟩), ("value", ⟨.expression, value⟩)]
  | ⟨.expressionVariant, .binary operator left right⟩ => .taggedRecord "Binary"
      [("op", ⟨.operator, operator⟩), ("left", ⟨.expression, left⟩),
        ("right", ⟨.expression, right⟩)]
  | ⟨.expressionVariant, .identifier name⟩ => .tagged "Identifier" ⟨.text, name⟩
  | ⟨.expressionVariant, .integer value⟩ => .tagged "IntegerLiteral" ⟨.int64, value⟩
  | ⟨.expressionVariant, .float value⟩ => .tagged "FloatLiteral" ⟨.float, value⟩
  | ⟨.expressionVariant, .parenthesized inner⟩ => .tagged "Parenthesized" ⟨.expression, inner⟩
  | ⟨.expression, expression⟩ => .record
      [("kind", ⟨.expressionVariant, expression.variant⟩), ("span", ⟨.span, expression.span⟩)]
  | ⟨.declaration, declaration⟩ => .record
      [("name", ⟨.identifier, declaration.name⟩),
        ("declared_type", ⟨.typeClause, declaration.declaredType⟩),
        ("initializer", ⟨.expression, declaration.initializer⟩)]
  | ⟨.statementVariant, .declaration declaration⟩ =>
    .tagged "VariableDeclaration" ⟨.declaration, declaration⟩
  | ⟨.statementVariant, .expression value⟩ => .tagged "Expression" ⟨.expression, value⟩
  | ⟨.statement, statement⟩ => .record
      [("kind", ⟨.statementVariant, statement.variant⟩), ("span", ⟨.span, statement.span⟩)]
  | ⟨.block, block⟩ => .record
      [("statements", ⟨.statements, block.statements⟩), ("span", ⟨.span, block.span⟩)]
  | ⟨.parameter, parameter⟩ => .record
      [("name", ⟨.identifier, parameter.name⟩), ("param_type", ⟨.typeExpr, parameter.type⟩),
        ("span", ⟨.span, parameter.span⟩)]
  | ⟨.function, function⟩ => .record
      [("name", ⟨.identifier, function.name⟩), ("parameters", ⟨.parameters, function.parameters⟩),
        ("return_type", ⟨.typeExpr, function.returnType⟩), ("body", ⟨.body, function.body⟩),
        ("span", ⟨.span, function.span⟩)]
  | ⟨.program, program⟩ => .record
      [("functions", ⟨.functions, program.functions⟩), ("span", ⟨.span, program.span⟩)]
  | ⟨.typeClause, none⟩ | ⟨.body, none⟩ => .absent
  | ⟨.typeClause, some type⟩ => .present ⟨.typeExpr, type⟩
  | ⟨.body, some block⟩ => .present ⟨.block, block⟩
  | ⟨.notes, notes⟩ => .items (notes.map (Part.mk .text))
  | ⟨.statements, statements⟩ => .items (statements.map (Part.mk .statement))
  | ⟨.parameters, parameters⟩ => .items (parameters.map (Part.mk .parameter))
  | ⟨.functions, functions⟩ => .items (functions.map (Part.mk .function))

end SableSyntax
