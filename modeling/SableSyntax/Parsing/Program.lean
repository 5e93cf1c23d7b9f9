/- SableSyntax/Parsing/Program
   digest: Reading types, statements, functions and whole programs. -/

import SableSyntax.Parsing.Expression

set_option autoImplicit false
set_option relaxedAutoImplicit false

namespace SableSyntax

namespace Parser

def identifier (construct : Construct) : Parser Identifier := operations.identifier construct

def typeExpr : Parser TypeExpr := operations.typeExpr

def parameter : Parser Parameter := operations.parameter

def parameterList : Parser (List Parameter) := operations.parameterList

def declaredType : Parser (Option TypeExpr) := operations.declaredType

def initializerMark (name : String) : Parser Token := operations.initializerMark name

def variableDeclaration : Parser Statement := operations.variableDeclaration expression

def expressionStatement : Parser Statement := operations.expressionStatement expression

def statement : Parser Statement := operations.statement expression

def block : Parser Block := operations.block expression

def functionBody : Parser (Option Block × Span) := operations.functionBody expression

def function : Parser Function := operations.function expression

theorem operations_programSpan (first : Token) (functions : List Function) :
    operations.programSpan first functions =
      return first.span.through
        ((functions.getLast?.map Function.span).getD (.point first.span.start)) := by
  unfold Operations.programSpan
  split <;> simp_all [Span.through, Span.point]

def program : Parser Program := operations.program expression

end Parser

/-- The program a text is, or the first thing that keeps it from being one. -/
def parse (source : String) : Except SyntaxError Program :=
  Parser.program.runOn source

def parseTrace (source : String) : List TraceEvent :=
  (Parser.program.step (.ofText source)).2.trace

end SableSyntax
