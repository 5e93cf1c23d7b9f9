/- SableSyntax/Lexing/Lexer
   digest: The tokens of a whole text, all at once or one after the other. -/

import SableSyntax.Lexing.Cursor
import SableSyntax.Trace

set_option autoImplicit false
set_option relaxedAutoImplicit false

namespace SableSyntax

namespace Cursor

/-- Every token up to and including the end of the text, or up to the first fault. -/
def run (cursor : Cursor) : List (Except SyntaxError Token) × Cursor :=
  match _ : cursor.next with
  | .error error reached => ([.error error], reached)
  | .ok token reached =>
    if _ : token.kind = .endOfInput then ([.ok token], reached)
    else
      let (results, last) := reached.run
      (.ok token :: results, last)
termination_by cursor.rest.length
decreasing_by exact rest_length_lt_of_next ‹_› ‹_›

end Cursor

/-- A text with a cursor in it. The stepwise reading is finished by the end of the text or by
the first fault. -/
structure Lexer where
  source : String
  cursor : Cursor
  finished : Bool
  deriving DecidableEq, Repr

namespace Lexer

def ofText (source : String) : Lexer := ⟨source, .ofText source, false⟩

def reset (lexer : Lexer) : Lexer := ofText lexer.source

/-- The next token wherever the cursor stands, whether finished or not. -/
def nextToken (lexer : Lexer) : Except SyntaxError Token × Lexer :=
  match lexer.cursor.next with
  | .ok token cursor => (.ok token, { lexer with cursor })
  | .error error cursor => (.error error, { lexer with cursor })

def isLast : Except SyntaxError Token → Bool
  | .ok token => token.kind == .endOfInput
  | .error _ => true

def next (lexer : Lexer) : Option (Except SyntaxError Token) × Lexer :=
  if lexer.finished then (none, lexer)
  else
    let (result, lexer) := lexer.nextToken
    (some result, { lexer with finished := isLast result })

def drain (lexer : Lexer) : List (Except SyntaxError Token) × Lexer :=
  if lexer.finished then ([], lexer)
  else
    let (results, cursor) := lexer.cursor.run
    (results, { lexer with cursor, finished := true })

/-- What is entered in the log for a result of the stepwise reading: a fault only. -/
def trace : Except SyntaxError Token → List TraceEvent
  | .ok _ => []
  | .error error => [.lexingStopped error]

end Lexer

/-- The tokens of a text, the end of the text last, or the first fault in it. -/
def tokenize (source : String) : Except SyntaxError (List Token) :=
  (Lexer.ofText source).drain.1.mapM id

def tokenizeTrace (source : String) : List TraceEvent :=
  (Lexer.ofText source).drain.1.flatMap Lexer.trace

end SableSyntax
