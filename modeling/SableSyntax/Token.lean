/- SableSyntax/Token
   digest: Tokens, their kinds and how messages name them. -/

import SableSyntax.Text.Span

set_option autoImplicit false
set_option relaxedAutoImplicit false

namespace SableSyntax

/-- What a token is: a literal, a name, a keyword, a punctuation mark, or the end of the text. -/
inductive TokenKind
  | integer | float | identifier
  | func | var
  | plus | minus | star | slash | equal
  | colon | comma | semicolon | leftParen | rightParen | leftBrace | rightBrace
  | endOfInput
  deriving DecidableEq, Repr

inductive TokenCategory
  | identifier | integerLiteral | floatLiteral | keyword | punctuation | endOfInput
  deriving DecidableEq, Repr

namespace TokenKind

def category : TokenKind → TokenCategory
  | .integer => .integerLiteral
  | .float => .floatLiteral
  | .identifier => .identifier
  | .func | .var => .keyword
  | .plus | .minus | .star | .slash | .equal | .colon | .comma | .semicolon
  | .leftParen | .rightParen | .leftBrace | .rightBrace => .punctuation
  | .endOfInput => .endOfInput

def keyword? : String → Option TokenKind
  | "func" => some .func
  | "var" => some .var
  | _ => none

def ofWord (word : String) : TokenKind :=
  (keyword? word).getD .identifier

def punctuation? : Char → Option TokenKind
  | '+' => some .plus
  | '-' => some .minus
  | '*' => some .star
  | '/' => some .slash
  | '=' => some .equal
  | ':' => some .colon
  | ',' => some .comma
  | ';' => some .semicolon
  | '(' => some .leftParen
  | ')' => some .rightParen
  | '{' => some .leftBrace
  | '}' => some .rightBrace
  | _ => none

instance : ToString TokenKind where
  toString
    | .integer => "integer literal"
    | .float => "float literal"
    | .identifier => "identifier"
    | .func => "`func`"
    | .var => "`var`"
    | .plus => "`+`"
    | .minus => "`-`"
    | .star => "`*`"
    | .slash => "`/`"
    | .equal => "`=`"
    | .colon => "`:`"
    | .comma => "`,`"
    | .semicolon => "`;`"
    | .leftParen => "`(`"
    | .rightParen => "`)`"
    | .leftBrace => "`\x7b`"
    | .rightBrace => "`\x7d`"
    | .endOfInput => "end of input"

end TokenKind

structure Lexeme where
  kind : TokenKind
  text : String
  deriving DecidableEq, Repr

/-- A lexeme whose text is not settled by its kind is named with its text. -/
instance : ToString Lexeme where
  toString lexeme :=
    match lexeme.kind.category with
    | .identifier | .integerLiteral | .floatLiteral =>
      toString lexeme.kind ++ " `" ++ lexeme.text ++ "`"
    | .keyword | .punctuation | .endOfInput => toString lexeme.kind

structure Token extends Lexeme where
  span : Span
  deriving DecidableEq, Repr

instance : ToString Token where
  toString token := toString token.toLexeme

end SableSyntax
