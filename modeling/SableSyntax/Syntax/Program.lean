/- SableSyntax/Syntax/Program
   digest: Statements, functions and whole programs, with their equality up to places. -/

import SableSyntax.Syntax.Expression

set_option autoImplicit false
set_option relaxedAutoImplicit false

namespace SableSyntax

/-- A variable with its first value, and with its type unless that is left to the value; or an
expression for its effect. -/
inductive Statement
  | variable (name : Identifier) (declaredType : Option TypeExpr) (initializer : Expression)
    (span : Span)
  | expression (value : Expression) (span : Span)
  deriving DecidableEq, Repr

def Statement.span : Statement → Span
  | .variable _ _ _ span | .expression _ span => span

instance : BEq Statement where
  beq
    | .variable name declaredType initializer _, .variable name' declaredType' initializer' _ =>
      name == name' && declaredType == declaredType' && initializer == initializer'
    | .expression value _, .expression value' _ => value == value'
    | _, _ => false

structure Block where
  statements : List Statement
  span : Span
  deriving DecidableEq, Repr

instance : BEq Block where
  beq a b := a.statements == b.statements

structure Parameter where
  name : Identifier
  type : TypeExpr
  span : Span
  deriving DecidableEq, Repr

instance : BEq Parameter where
  beq a b := a.name == b.name && a.type == b.type

structure Function where
  name : Identifier
  parameters : List Parameter
  returnType : TypeExpr
  body : Option Block
  span : Span
  deriving DecidableEq, Repr

instance : BEq Function where
  beq a b :=
    a.name == b.name && a.parameters == b.parameters && a.returnType == b.returnType &&
      a.body == b.body

def Function.isForward (function : Function) : Bool := function.body.isNone

/-- Functions in the order of their declarations. -/
structure Program where
  functions : List Function
  span : Span
  deriving DecidableEq, Repr

instance : BEq Program where
  beq a b := a.functions == b.functions

def Program.function? (program : Program) (name : String) : Option Function :=
  program.functions.find? fun function => function.name.name == name

end SableSyntax
