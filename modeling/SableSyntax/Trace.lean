/- SableSyntax/Trace
   digest: The milestones that reading a text leaves in a log. -/

import SableSyntax.SyntaxError

set_option autoImplicit false
set_option relaxedAutoImplicit false

namespace SableSyntax

inductive TraceLevel
  | debug | trace
  deriving DecidableEq, Repr

inductive TraceEvent
  | functionEntered (name : String) | blockEntered (place : Location)
  | programRead (functionCount : Nat) | lexingStopped (error : SyntaxError)
  deriving DecidableEq, Repr

namespace TraceEvent

def level : TraceEvent → TraceLevel
  | .functionEntered _ | .blockEntered _ => .trace
  | .programRead _ | .lexingStopped _ => .debug

def message : TraceEvent → String
  | .functionEntered name => "parsing function `" ++ name ++ "`"
  | .blockEntered place => "parsing block at " ++ toString place
  | .programRead functionCount => "parsed " ++ toString functionCount ++ " function declaration(s)"
  | .lexingStopped error => "lexer stopped: " ++ error.message

def isShown (admitted : TraceLevel) (event : TraceEvent) : Bool :=
  event.level == .debug || admitted == .trace

end TraceEvent

end SableSyntax
