/- SableSyntax/SyntaxError
   digest: What can stop the reading of a source text, where, and in which words. -/

import SableSyntax.Token

set_option autoImplicit false
set_option relaxedAutoImplicit false

namespace SableSyntax

inductive Construct
  | functionDeclaration | parameterList | parameter | typeExpr | block
  | variableDeclaration | expressionStatement | expression | parenthesizedExpression
  deriving DecidableEq, Repr

instance : ToString Construct where
  toString
    | .functionDeclaration => "function declaration"
    | .parameterList => "parameter list"
    | .parameter => "parameter"
    | .typeExpr => "type"
    | .block => "block"
    | .variableDeclaration => "variable declaration"
    | .expressionStatement => "expression statement"
    | .expression => "expression"
    | .parenthesizedExpression => "parenthesized expression"

inductive Expected
  | token (kind : TokenKind) | functionBody | expression
  deriving DecidableEq, Repr

instance : ToString Expected where
  toString
    | .token kind => toString kind
    | .functionBody => "function body or `;`"
    | .expression => "expression"

inductive Fault
  | unrecognizedCharacter (character : Char)
  | unterminatedComment
  | numberOutOfRange (text : String)
  | unexpectedToken (expected : Expected) (found : Lexeme)
  | unexpectedEnd (construct : Construct)
  | missingInitializer (name : String)
  | trailingInput (found : Lexeme)
  | nestingTooDeep (limit : Nat)
  deriving DecidableEq, Repr

/-- A fault without its place, in the words of the one-line message. -/
def Fault.summary : Fault → String
  | .unrecognizedCharacter character =>
    "unrecognized character `" ++ String.singleton character ++ "`"
  | .unterminatedComment => "unterminated block comment starting"
  | .numberOutOfRange text => "invalid numeric literal `" ++ text ++ "`"
  | .unexpectedToken expected found =>
    "expected " ++ toString expected ++ ", found " ++ toString found
  | .unexpectedEnd construct => "unexpected end of input in " ++ toString construct
  | .missingInitializer name => "variable `" ++ name ++ "` has no initializer, expected `=`"
  | .trailingInput found => "unexpected " ++ toString found ++ " after the last function"
  | .nestingTooDeep limit => "expression nested deeper than " ++ toString limit ++ " levels"

structure SyntaxError where
  fault : Fault
  span : Span
  deriving DecidableEq, Repr

namespace SyntaxError

def location (error : SyntaxError) : Location := error.span.start

def message (error : SyntaxError) : String :=
  error.fault.summary ++ " at " ++ toString error.location

/-- The error for a token in a wrong place: the end of the text is reported by the construct
it cuts off, any other token by what should have been there. -/
def unexpected (found : Token) (expected : Expected) (construct : Construct) : SyntaxError :=
  if found.kind = .endOfInput then ⟨.unexpectedEnd construct, found.span⟩
  else ⟨.unexpectedToken expected found.toLexeme, found.span⟩

@[simp] theorem span_unexpected (found : Token) (expected : Expected) (construct : Construct) :
    (unexpected found expected construct).span = found.span := by
  unfold unexpected
  split <;> rfl

end SyntaxError

end SableSyntax
