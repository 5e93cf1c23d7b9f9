/- SableSyntax/Diagnostic
   digest: Errors as they are shown to a reader, alone or beside the line they are about. -/

import SableSyntax.SyntaxError
import SableSyntax.Text.Escape
import SableSyntax.Text.Lines

set_option autoImplicit false
set_option relaxedAutoImplicit false

namespace SableSyntax

inductive Severity
  | error
  deriving DecidableEq, Repr

instance : ToString Severity where
  toString
    | .error => "error"

/-- A message about a stretch of a text, with notes that help to mend it. -/
structure Diagnostic where
  severity : Severity
  message : String
  span : Span
  notes : List String
  deriving DecidableEq, Repr

/-- A fault in the words of a diagnostic: those of the one-line message, but for characters that
may not show, which are escaped, and for what the excerpt or a note says better. -/
def Fault.headline : Fault → String
  | .unrecognizedCharacter character => "unrecognized character `" ++ escape character ++ "`"
  | .unterminatedComment => "unterminated block comment"
  | .numberOutOfRange text => "numeric literal `" ++ text ++ "` is out of range"
  | .missingInitializer name => "variable `" ++ name ++ "` has no initializer"
  | fault => fault.summary

def Fault.notes : Fault → List String
  | .missingInitializer _ => ["variables are declared as `var name = value;`"]
  | .trailingInput _ => ["only `func` declarations may appear at the top level"]
  | .nestingTooDeep _ => ["split the expression using intermediate variables"]
  | _ => []

namespace Diagnostic

def ofError (error : SyntaxError) : Diagnostic :=
  ⟨.error, error.fault.headline, error.span, error.fault.notes⟩

instance : ToString Diagnostic where
  toString diagnostic :=
    toString diagnostic.severity ++ ": " ++ diagnostic.message ++ " at " ++
      toString diagnostic.span.start ++
      String.join (diagnostic.notes.map fun note => "\n  note: " ++ note)

def blanks (count : Nat) : String := String.ofList (List.replicate count ' ')

/-- How many characters of the first line are marked: those of the span, or one if it is empty,
goes on behind the line or ends before it starts. -/
def markWidth (span : Span) : Nat :=
  if span.stop.line = span.start.line then max 1 (span.stop.column - span.start.column) else 1

/-- The line a span starts on, with marks under the span. -/
def excerpt (gutter : String) (span : Span) (line : List Char) : String :=
  gutter ++ " |\n" ++
    toString span.start.line ++ " | " ++ String.ofList line ++ "\n" ++
    gutter ++ " | " ++ blanks (span.start.column - 1) ++
    String.ofList (List.replicate (markWidth span) '^') ++ "\n"

/-- The diagnostic with its place in a named source text. The excerpt is left out if the text
has no such line; line numbers below one stand for the first line. -/
def render (diagnostic : Diagnostic) (filename source : String) : String :=
  let start := diagnostic.span.start
  let gutter := blanks (toString start.line).length
  toString diagnostic.severity ++ ": " ++ diagnostic.message ++ "\n" ++
    gutter ++ "--> " ++ filename ++ ":" ++ toString start ++ "\n" ++
    (match (lines source.toList)[start.line - 1]? with
      | some line => excerpt gutter diagnostic.span line
      | none => "") ++
    String.join (diagnostic.notes.map fun note => gutter ++ " = note: " ++ note ++ "\n")

end Diagnostic

end SableSyntax
