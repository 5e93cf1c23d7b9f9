/- SableSyntax/Parsing/Routines
   digest: What is read for each construct, put together from the handling of single tokens. -/

import SableSyntax.Number.Literal
import SableSyntax.Syntax.Program
import SableSyntax.Trace

set_option autoImplicit false
set_option relaxedAutoImplicit false

namespace SableSyntax

inductive Loop
  | function | parameter | statement | star | operator
  deriving DecidableEq, Repr

/-- The routines that are entered again before they have come to an end. -/
inductive Routine
  | expression | binary
  deriving DecidableEq, Repr

/-- What routines are put together from, whatever else is kept along with the tokens. -/
structure Operations (m : Type → Type) where
  /-- Looks at the next token without using it. -/
  peek : m Token
  /-- Looks at the token behind one that has been looked at. -/
  peekSecond : m Token
  /-- Uses the next token. -/
  advance : m Token
  /-- Makes an entry in the log. -/
  record : TraceEvent → m Unit
  /-- Reads items while the next token passes a test. -/
  repeatWhile : {α : Type} → Loop → (Token → Bool) → m α → m (List α)
  /-- Goes through a round of a loop. -/
  round : {α : Type} → Loop → m α → m α
  /-- Enters a routine and leaves it again. -/
  enter : {α : Type} → Routine → m α → m α
  /-- Closes the levels that a reader opens. -/
  restoring : {α : Type} → m α → m α
  /-- The stretch from one part to the last one, which ends with the token that was used last. -/
  spanFrom : (first last : Span) → m Span

/-- Readers for the parts of an expression where some levels are open. -/
structure Readers (m : Type → Type) where
  /-- An assignment, or operands joined by any operators. -/
  expression : m Expression
  /-- Operands joined by operators that bind at a level or tighter. -/
  binary : Precedence → m Expression
  /-- The further links of a chain of operators behind its left part. -/
  chain : Precedence → Expression → m Expression
  /-- A literal, a name or an expression in parentheses. -/
  primary : m Expression

/-- Whether statements end before a token: at the closing brace or the end of the text. -/
def Token.closesBlock (token : Token) : Bool :=
  token.kind == .rightBrace || token.kind == .endOfInput

namespace Operations

variable {m : Type → Type} [Monad m] [MonadExceptOf SyntaxError m] (on : Operations m)

def expect (kind : TokenKind) (construct : Construct) : m Token := do
  let token ← on.peek
  if token.kind = kind then on.advance
  else throw (.unexpected token (.token kind) construct)

section Expressions

-- How a level is opened, and the readers that may be called there.
variable (opens : Token → m Unit) (inner : Readers m)

def enclosed (opening : Token) : m Expression :=
  on.restoring do
    opens opening
    inner.expression

def primaryOver : m Expression := do
  let token ← on.peek
  match token.kind with
  | .integer =>
    let _ ← on.advance
    match integerValue? token.text.toList with
    | some value => return .integer value token.span
    | none => throw ⟨.numberOutOfRange token.text, token.span⟩
  | .float =>
    let _ ← on.advance
    match floatValue? token.text.toList with
    | some value => return .float value token.span
    | none => throw ⟨.numberOutOfRange token.text, token.span⟩
  | .identifier =>
    let _ ← on.advance
    return .identifier token.text token.span
  | .leftParen =>
    let _ ← on.advance
    let value ← on.enclosed opens inner token
    let close ← on.expect .rightParen .parenthesizedExpression
    return .parenthesized value (token.span.through close.span)
  | _ => throw (.unexpected token .expression .expression)

/-- Reads a link of a chain behind its left part. Its right operand stops before an operator that
the chain goes on with. -/
def linkOver (opening : Token) (rule : OperatorRule) (left : Expression) : m Expression := do
  let _ ← on.advance
  opens opening
  let right ← inner.binary rule.rightOperand
  return .binary rule.operator left right (left.span.through right.span)

/-- Reads the links of a chain. None of the levels that they open is closed before it ends. -/
def chainOver (least : Precedence) (left : Expression) : m Expression := do
  let token ← on.peek
  match token.kind.operatorRule? with
  | none => return left
  | some rule =>
    if least ≤ rule.precedence then
      let longer ← on.round .operator (on.linkOver opens inner token rule left)
      inner.chain least longer
    else return left

def assignmentOver : m Expression := do
  let name ← on.advance
  let mark ← on.advance
  let value ← on.enclosed opens inner mark
  return .assignment ⟨name.text, name.span⟩ value (name.span.through value.span)

variable (chain : Precedence → Expression → m Expression)

/-- Reads a primary expression and the chain behind it, which closes its levels at the end. -/
def binaryOver (least : Precedence) : m Expression :=
  on.enter .binary do
    let left ← on.primaryOver opens inner
    on.restoring (chain least left)

/-- Reads an assignment where a name has the mark of assignment behind it, and operands joined
by operators elsewhere. -/
def expressionOver : m Expression :=
  on.enter .expression do
    let first ← on.peek
    if first.kind = .identifier then
      let second ← on.peekSecond
      if second.kind = .equal then on.assignmentOver opens inner
      else on.binaryOver opens inner chain Precedence.assignment.next
    else on.binaryOver opens inner chain Precedence.assignment.next

def layer : Readers m where
  expression := on.expressionOver opens inner chain
  binary := on.binaryOver opens inner chain
  chain := chain
  primary := on.primaryOver opens inner

end Expressions

section Programs

def identifier (construct : Construct) : m Identifier := do
  let token ← on.expect .identifier construct
  return ⟨token.text, token.span⟩

def typeExpr : m TypeExpr := do
  let base ← on.identifier .typeExpr
  let marks ← on.repeatWhile .star (·.kind == .star) on.advance
  let span ← on.spanFrom base.span ((marks.getLast?.map Token.span).getD base.span)
  return ⟨.ofName base.name, marks.length, span⟩

def parameter : m Parameter := do
  let name ← on.identifier .parameter
  let _ ← on.expect .colon .parameter
  let type ← on.typeExpr
  let span ← on.spanFrom name.span type.span
  return ⟨name, type, span⟩

def furtherParameter : m Parameter := do
  let _ ← on.advance
  on.parameter

/-- Reads parameters with commas between them, or none before a closing parenthesis. Each of them
takes a round, the first one too. -/
def parameterList : m (List Parameter) := do
  let token ← on.peek
  if token.kind = .rightParen then return []
  else
    let first ← on.round .parameter on.parameter
    let rest ← on.repeatWhile .parameter (·.kind == .comma) on.furtherParameter
    return first :: rest

def declaredType : m (Option TypeExpr) := do
  let token ← on.peek
  if token.kind = .colon then
    let _ ← on.advance
    let type ← on.typeExpr
    return some type
  else return none

/-- Uses the mark before the first value of a variable. A text that goes on without one is
missing the value, one that ends is merely unfinished. -/
def initializerMark (name : String) : m Token := do
  let token ← on.peek
  match token.kind with
  | .equal => on.advance
  | .endOfInput => throw (.unexpected token (.token .equal) .variableDeclaration)
  | _ => throw ⟨.missingInitializer name, token.span⟩

variable (expression : m Expression)

def variableDeclaration : m Statement := do
  let keyword ← on.expect .var .variableDeclaration
  let name ← on.identifier .variableDeclaration
  let type ← on.declaredType
  let _ ← on.initializerMark name.name
  let initializer ← expression
  let close ← on.expect .semicolon .variableDeclaration
  let span ← on.spanFrom keyword.span close.span
  return .variable name type initializer span

def expressionStatement : m Statement := do
  let value ← expression
  let close ← on.expect .semicolon .expressionStatement
  let span ← on.spanFrom value.span close.span
  return .expression value span

def statement : m Statement := do
  let token ← on.peek
  if token.kind = .var then on.variableDeclaration expression
  else on.expressionStatement expression

def block : m Block := do
  let opening ← on.expect .leftBrace .block
  on.record (.blockEntered opening.span.start)
  let statements ← on.repeatWhile .statement (!Token.closesBlock ·) (on.statement expression)
  let close ← on.expect .rightBrace .block
  return ⟨statements, opening.span.through close.span⟩

def functionBody : m (Option Block × Span) := do
  let token ← on.peek
  match token.kind with
  | .leftBrace =>
    let body ← on.block expression
    return (some body, body.span)
  | .semicolon =>
    let close ← on.advance
    return (none, close.span)
  | _ => throw (.unexpected token .functionBody .functionDeclaration)

def function : m Function := do
  let keyword ← on.expect .func .functionDeclaration
  let name ← on.identifier .functionDeclaration
  on.record (.functionEntered name.name)
  let _ ← on.expect .leftParen .functionDeclaration
  let parameters ← on.parameterList
  let _ ← on.expect .rightParen .parameterList
  let _ ← on.expect .colon .functionDeclaration
  let returnType ← on.typeExpr
  let (body, last) ← on.functionBody expression
  let span ← on.spanFrom keyword.span last
  return ⟨name, parameters, returnType, body, span⟩

/-- The stretch of a program, which is empty without functions. -/
def programSpan (first : Token) (functions : List Function) : m Span :=
  match functions.getLast? with
  | none => return .point first.span.start
  | some last => on.spanFrom first.span last.span

def program : m Program := do
  let first ← on.peek
  let functions ← on.repeatWhile .function (·.kind == .func) (on.function expression)
  let next ← on.peek
  if next.kind = .endOfInput then
    on.record (.programRead functions.length)
    let span ← on.programSpan first functions
    return ⟨functions, span⟩
  else throw ⟨.trailingInput next.toLexeme, next.span⟩

end Programs

end Operations

end SableSyntax
