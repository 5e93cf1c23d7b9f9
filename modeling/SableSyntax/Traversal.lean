/- SableSyntax/Traversal
   digest: Walking a program node by node, in the order of its text. -/

import SableSyntax.Syntax.Printing

set_option autoImplicit false
set_option relaxedAutoImplicit false

namespace SableSyntax

inductive NodeKind
  | program | function | parameter | typeExpr | block | statement | expression | identifier
  deriving DecidableEq, Repr

inductive Node
  | program (program : Program) | function (function : Function) | parameter (parameter : Parameter)
  | typeExpr (type : TypeExpr) | block (block : Block) | statement (statement : Statement)
  | expression (expression : Expression) | identifier (identifier : Identifier)
  deriving DecidableEq, Repr

namespace Node

def kind : Node → NodeKind
  | .program _ => .program
  | .function _ => .function
  | .parameter _ => .parameter
  | .typeExpr _ => .typeExpr
  | .block _ => .block
  | .statement _ => .statement
  | .expression _ => .expression
  | .identifier _ => .identifier

def span : Node → Span
  | .program node => node.span
  | .function node => node.span
  | .parameter node => node.span
  | .typeExpr node => node.span
  | .block node => node.span
  | .statement node => node.span
  | .expression node => node.span
  | .identifier node => node.span

def text : Node → String
  | .program node => node.text
  | .function node => node.text
  | .parameter node => node.text
  | .typeExpr node => node.text
  | .block node => node.text
  | .statement node => node.text
  | .expression node => node.text
  | .identifier node => node.text

end Node

/-- What is done with a state at each node. A visitor is given the node and the walk through the
nodes directly below it, which it may take or leave. -/
abbrev Visitor (σ : Type) := Node → (walk : σ → σ) → σ → σ

namespace Visitor

variable {σ : Type}

def visitIdentifier (visitor : Visitor σ) (identifier : Identifier) : σ → σ :=
  visitor (.identifier identifier) id

def visitType (visitor : Visitor σ) (type : TypeExpr) : σ → σ :=
  visitor (.typeExpr type) id

def walkExpression (visitor : Visitor σ) : Expression → σ → σ
  | .assignment target value _ => fun state =>
    visitor (.expression value) (visitor.walkExpression value)
      (visitor.visitIdentifier target state)
  | .binary _ left right _ => fun state =>
    visitor (.expression right) (visitor.walkExpression right)
      (visitor (.expression left) (visitor.walkExpression left) state)
  | .parenthesized inner _ => visitor (.expression inner) (visitor.walkExpression inner)
  | .identifier _ _ | .integer _ _ | .float _ _ => id

def visitExpression (visitor : Visitor σ) (expression : Expression) : σ → σ :=
  visitor (.expression expression) (visitor.walkExpression expression)

def walkStatement (visitor : Visitor σ) : Statement → σ → σ
  | .variable name declaredType initializer _ => fun state =>
    visitor.visitExpression initializer
      (declaredType.toList.foldl (fun state type => visitor.visitType type state)
        (visitor.visitIdentifier name state))
  | .expression value _ => visitor.visitExpression value

def visitStatement (visitor : Visitor σ) (statement : Statement) : σ → σ :=
  visitor (.statement statement) (visitor.walkStatement statement)

def visitBlock (visitor : Visitor σ) (block : Block) : σ → σ :=
  visitor (.block block) fun state =>
    block.statements.foldl (fun state statement => visitor.visitStatement statement state) state

def visitParameter (visitor : Visitor σ) (parameter : Parameter) : σ → σ :=
  visitor (.parameter parameter) fun state =>
    visitor.visitType parameter.type (visitor.visitIdentifier parameter.name state)

def walkFunction (visitor : Visitor σ) (function : Function) (state : σ) : σ :=
  let state := visitor.visitIdentifier function.name state
  let state :=
    function.parameters.foldl (fun state parameter => visitor.visitParameter parameter state) state
  let state := visitor.visitType function.returnType state
  function.body.toList.foldl (fun state body => visitor.visitBlock body state) state

def visitFunction (visitor : Visitor σ) (function : Function) : σ → σ :=
  visitor (.function function) (visitor.walkFunction function)

def visitProgram (visitor : Visitor σ) (program : Program) : σ → σ :=
  visitor (.program program) fun state =>
    program.functions.foldl (fun state function => visitor.visitFunction function state) state

end Visitor

/-- What a recording visitor writes down. -/
inductive VisitEvent
  | enter (node : Node) | leave (node : Node)
  deriving DecidableEq, Repr

/-- What a recording visitor does at a node: take the walk without a record, with one before it,
with one after it or with one on either side, or leave the walk and make one record. -/
inductive Reaction
  | pass | before | after | around | only
  deriving DecidableEq, Repr

/-- A visitor that writes down the nodes it comes by, as is fixed for each kind of node. -/
def Visitor.recording (reaction : NodeKind → Reaction) : Visitor (List VisitEvent) :=
  fun node walk events =>
    match reaction node.kind with
    | .pass => walk events
    | .before => walk (events ++ [.enter node])
    | .after => walk events ++ [.enter node]
    | .around => walk (events ++ [.enter node]) ++ [.leave node]
    | .only => events ++ [.enter node]

def Program.visits (program : Program) (reaction : NodeKind → Reaction) : List VisitEvent :=
  (Visitor.recording reaction).visitProgram program []

end SableSyntax
