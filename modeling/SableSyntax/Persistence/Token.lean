/- SableSyntax/Persistence/Token
   digest: Places, spans and tokens as JSON values. -/

import SableSyntax.Json.Value
import SableSyntax.Token

set_option autoImplicit false
set_option relaxedAutoImplicit false

namespace SableSyntax

def natToJson (value : Nat) : Json := .number (.integer value)

namespace Location

def toJson (place : Location) : Json :=
  .object [("offset", natToJson place.offset), ("line", natToJson place.line),
    ("column", natToJson place.column)]

/-- A place from its counts. The offset takes 64 bits at most, line and column take 32. -/
def ofJson? : (levels : Nat) → Json → Option Location
  | 0, _ => none
  | _ + 1, json => do
    match ← json.fields? ["offset", "line", "column"] with
    | [some offset, some line, some column] =>
      return ⟨← offset.nat? UInt64.size, ← line.nat? UInt32.size, ← column.nat? UInt32.size⟩
    | _ => none

end Location

namespace Span

def toJson (span : Span) : Json :=
  .object [("start", span.start.toJson), ("end", span.stop.toJson)]

def ofJson? : (levels : Nat) → Json → Option Span
  | 0, _ => none
  | levels + 1, json => do
    match ← json.fields? ["start", "end"] with
    | [some start, some stop] =>
      return ⟨← Location.ofJson? levels start, ← Location.ofJson? levels stop⟩
    | _ => none

end Span

namespace TokenKind

def all : List TokenKind :=
  [.integer, .float, .identifier, .func, .var, .plus, .minus, .star, .slash, .equal, .colon, .comma,
    .semicolon, .leftParen, .rightParen, .leftBrace, .rightBrace, .endOfInput]

def storedName : TokenKind → String
  | .integer => "IntLiteral"
  | .float => "FloatLiteral"
  | .identifier => "Identifier"
  | .func => "Func"
  | .var => "Var"
  | .plus => "Plus"
  | .minus => "Minus"
  | .star => "Star"
  | .slash => "Slash"
  | .equal => "Equal"
  | .colon => "Colon"
  | .comma => "Comma"
  | .semicolon => "Semicolon"
  | .leftParen => "LeftParen"
  | .rightParen => "RightParen"
  | .leftBrace => "LeftBrace"
  | .rightBrace => "RightBrace"
  | .endOfInput => "EndOfFile"

def ofStoredName? (name : String) : Option TokenKind :=
  all.find? fun kind => kind.storedName == name

def toJson (kind : TokenKind) : Json := .string kind.storedName

def ofJson? (json : Json) : Option TokenKind := json.name? >>= ofStoredName?

end TokenKind

namespace TokenCategory

def all : List TokenCategory :=
  [.identifier, .integerLiteral, .floatLiteral, .keyword, .punctuation, .endOfInput]

def storedName : TokenCategory → String
  | .identifier => "Identifier"
  | .integerLiteral => "IntegerLiteral"
  | .floatLiteral => "FloatLiteral"
  | .keyword => "Keyword"
  | .punctuation => "Punctuation"
  | .endOfInput => "EndOfInput"

def toJson (category : TokenCategory) : Json := .string category.storedName

def ofJson? (json : Json) : Option TokenCategory := do
  let name ← json.name?
  all.find? fun category => category.storedName == name

end TokenCategory

def Token.toJson (token : Token) : Json :=
  .object [("kind", token.kind.toJson), ("text", .string token.text), ("span", token.span.toJson)]

end SableSyntax
