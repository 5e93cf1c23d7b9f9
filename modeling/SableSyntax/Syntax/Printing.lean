/- SableSyntax/Syntax/Printing
   digest: The canonical source text of every tree. -/

import SableSyntax.Number.Shortest
import SableSyntax.Syntax.Program

set_option autoImplicit false
set_option relaxedAutoImplicit false

namespace SableSyntax

def Identifier.text (identifier : Identifier) : String := identifier.name

def TypeExpr.text (type : TypeExpr) : String :=
  type.base.text ++ String.ofList (List.replicate type.pointerDepth '*')

/-- Operators stand between blanks; only the parentheses of the tree itself are written. -/
def Expression.text : Expression → String
  | .assignment target value _ => target.text ++ " = " ++ value.text
  | .binary operator left right _ => left.text ++ " " ++ toString operator ++ " " ++ right.text
  | .identifier name _ => name
  | .integer value _ => toString value.toInt
  | .float value _ => value.text
  | .parenthesized inner _ => "(" ++ inner.text ++ ")"

def typeClause : Option TypeExpr → String
  | none => ""
  | some type => ": " ++ type.text

def Statement.text : Statement → String
  | .variable name declaredType initializer _ =>
    "var " ++ name.text ++ typeClause declaredType ++ " = " ++ initializer.text ++ ";"
  | .expression value _ => value.text ++ ";"

def Block.text (block : Block) : String :=
  "\x7b\n" ++
    String.join (block.statements.map fun statement => "    " ++ statement.text ++ "\n") ++ "\x7d"

def Parameter.text (parameter : Parameter) : String :=
  parameter.name.text ++ typeClause (some parameter.type)

def bodyClause : Option Block → String
  | none => ";"
  | some body => " " ++ body.text

def Function.text (function : Function) : String :=
  "func " ++ function.name.text ++ "(" ++
    String.intercalate ", " (function.parameters.map Parameter.text) ++ "): " ++
    function.returnType.text ++ bodyClause function.body

/-- Functions are written with an empty line between them. -/
def Program.text (program : Program) : String :=
  String.intercalate "\n" (program.functions.map fun function => function.text ++ "\n")

end SableSyntax
