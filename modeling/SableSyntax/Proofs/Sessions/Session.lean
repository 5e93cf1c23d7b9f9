/- SableSyntax/Proofs/Sessions/Session
   digest: Readers that count their open levels, remember where they stopped and keep a history. -/

import SableSyntax.Proofs.Lexing.Steps
import SableSyntax.Proofs.Parsing.Calls

set_option autoImplicit false
set_option relaxedAutoImplicit false

namespace SableSyntax

/-- A text being read call by call, with all that is kept from one call to the next, and a history
of what was taken off the text and of what was used of it. -/
structure Session extends ParserState where
  /-- Where the token that was used last stops. -/
  lastStop : Location
  /-- How many levels of an expression are open. -/
  openLevels : Nat
  /-- All results taken off the text, in order. -/
  drawn : List LexResult
  /-- All tokens that were used, in order. -/
  used : List Token
  deriving DecidableEq, Repr

namespace Session

def ofText (source : String) : Session := ⟨.ofText source, .start, 0, [], []⟩

abbrev Reader := EStateM SyntaxError Session

variable {α : Type}

def step (reader : Reader α) (session : Session) : Except SyntaxError α × Session :=
  match reader session with
  | .ok value session => (.ok value, session)
  | .error error session => (.error error, session)

section Tokens

def draw : Reader Token := fun session =>
  match session.cursor.next with
  | .ok token cursor => .ok token { session with cursor, drawn := session.drawn ++ [.ok token] }
  | .error error cursor =>
    .error error { session with cursor, drawn := session.drawn ++ [.error error] }

def buffer : Reader Token := do
  let token ← draw
  modify fun session => { session with lookahead := session.lookahead ++ [token] }
  return token

def bufferBehind : Nat → Reader Token
  | 0 => buffer
  | more + 1 => do
    let _ ← buffer
    bufferBehind more

/-- Looks at the token a number of places behind the next one, and buffers what is missing. -/
def peekNth (place : Nat) : Reader Token := fun session =>
  match session.lookahead[place]? with
  | some token => .ok token session
  | none => bufferBehind (place - session.lookahead.length) session

def peek : Reader Token := peekNth 0

def take : Reader Token := fun session =>
  match session.lookahead with
  | token :: rest => .ok token { session with lookahead := rest }
  | [] => draw session

def advance : Reader Token := do
  let token ← take
  modify fun session =>
    { session with lastStop := token.span.stop, used := session.used ++ [token] }
  return token

def record (event : TraceEvent) : Reader Unit :=
  modify fun session => { session with trace := session.trace ++ [event] }

def repeatBounded (test : Token → Bool) (item : Reader α) : Nat → Reader (List α)
  | 0 => return []
  | bound + 1 => do
    let token ← peek
    if test token then
      let first ← item
      let rest ← repeatBounded test item bound
      return first :: rest
    else return []

/-- Reads items while the next token passes a test. There are never more items than tokens. -/
def repeatWhile (test : Token → Bool) (item : Reader α) : Reader (List α) := fun session =>
  repeatBounded test item (session.size + 1) session

end Tokens

section Levels

def enterLevel (opening : Token) : Reader Unit := fun session =>
  if session.openLevels < maxNesting then
    .ok () { session with openLevels := session.openLevels + 1 }
  else .error ⟨.nestingTooDeep maxNesting, opening.span⟩ session

def restoring (reader : Reader α) : Reader α := fun session =>
  match reader session with
  | .ok value reached => .ok value { reached with openLevels := session.openLevels }
  | .error error reached => .error error { reached with openLevels := session.openLevels }

/-- What readers of sessions are put together from. A stretch ends where the token used last
does. -/
def operations : Operations Reader where
  peek := peek
  peekSecond := peekNth 1
  advance := advance
  record := record
  repeatWhile _ := repeatWhile
  round _ reader := reader
  enter _ reader := reader
  restoring := restoring
  spanFrom first _ := do
    let session ← get
    return ⟨first.start, session.lastStop⟩

@[simp] theorem operations_round (loop : Loop) (reader : Reader α) :
    operations.round loop reader = reader := rfl

abbrev Readers := SableSyntax.Readers Reader

namespace Readers

def layer (inner : Readers) : Readers :=
  operations.layer enterLevel inner (operations.chainOver enterLevel inner)

def unrolled (beyond : Readers) : Nat → Readers
  | 0 => beyond
  | calls + 1 => (beyond.unrolled calls).layer

/-- The readers where no level is open. There is a call of them for each level and one more. -/
def top (beyond : Readers) : Readers := beyond.unrolled (maxNesting + 1)

end Readers

end Levels

section Calls

-- What would be called with more levels open than there may be.
variable (beyond : Readers)

def reader (call : Parser.Call) : Reader call.Node := operations.reader beyond.top call

def after (calls : List Parser.Call) (session : Session) : Session :=
  calls.foldl (fun session call => (step (reader beyond call) session).2) session

end Calls

end Session

end SableSyntax
