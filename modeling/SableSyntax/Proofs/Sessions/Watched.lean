/- SableSyntax/Proofs/Sessions/Watched
   digest: Readers whose run is watched, with bounds on the rounds of loops and on activations. -/

import SableSyntax.Proofs.Sessions.Session

set_option autoImplicit false
set_option relaxedAutoImplicit false

namespace SableSyntax

/-- A routine at work, with the levels that were open and the tokens that had been used when it was
entered. -/
structure Activation where
  routine : Routine
  openLevels : Nat
  used : Nat
  deriving DecidableEq, Repr

/-- A round of a loop that came to its end, with the tokens that had been used before and behind
it. -/
structure Round where
  loop : Loop
  before : Nat
  behind : Nat
  deriving DecidableEq, Repr

/-- A session with an account of the run that led to it. -/
structure Watched extends Session where
  /-- The activations that have not come to an end, the last one first. -/
  active : List Activation
  /-- For each entry to a routine the activations that had not come to an end, the new one first. -/
  chains : List (List Activation)
  /-- The rounds that came to their end. -/
  rounds : List Round
  deriving DecidableEq, Repr

namespace Watched

open Session (peek peekNth advance record enterLevel)

def ofSession (session : Session) : Watched := ⟨session, [], [], []⟩

/-- A reader whose run is watched. It comes to nothing at all where it would need more than it may
have. -/
abbrev Reader := ExceptT SyntaxError (StateT Watched Option)

variable {α : Type}

def exhausted : Reader α := fun _ => none

/-- What a reader of sessions does is done within one round of all loops and enters no routine. -/
def lift (reader : Session.Reader α) : Reader α := fun watched =>
  let (outcome, session) := Session.step reader watched.toSession
  some (outcome, { watched with toSession := session })

def entered (routine : Routine) (watched : Watched) : Watched :=
  let active := ⟨routine, watched.openLevels, watched.used.length⟩ :: watched.active
  { watched with active, chains := watched.chains ++ [active] }

def enter (routine : Routine) (reader : Reader α) : Reader α := fun watched =>
  (reader (watched.entered routine)).map fun (outcome, reached) =>
    (outcome, { reached with active := watched.active })

def round (loop : Loop) (reader : Reader α) : Reader α := fun watched =>
  (reader watched).map fun (outcome, reached) =>
    match outcome with
    | .ok value =>
      let round := ⟨loop, watched.used.length, reached.used.length⟩
      (.ok value, { reached with rounds := reached.rounds ++ [round] })
    | .error error => (.error error, reached)

def repeatWhile (loop : Loop) (test : Token → Bool) (item : Reader α) : Nat → Reader (List α)
  | 0 => exhausted
  | rounds + 1 => do
    let token ← lift peek
    if test token then
      let first ← round loop item
      let rest ← repeatWhile loop test item rounds
      return first :: rest
    else return []

def restoring (reader : Reader α) : Reader α := fun watched =>
  (reader watched).map fun (outcome, reached) =>
    (outcome, { reached with openLevels := watched.openLevels })

def operations (rounds : Nat) : Operations Reader where
  peek := lift peek
  peekSecond := lift (peekNth 1)
  advance := lift advance
  record event := lift (record event)
  repeatWhile loop test item := repeatWhile loop test item rounds
  round := round
  enter := enter
  restoring := restoring
  spanFrom first last := lift (Session.operations.spanFrom first last)

abbrev Readers := SableSyntax.Readers Reader

def openLevel (opening : Token) : Reader Unit := lift (enterLevel opening)

def chain (inner : Readers) : Nat → Precedence → Expression → Reader Expression
  | 0, _, _ => exhausted
  | rounds + 1, least, left =>
    (operations rounds).chainOver openLevel { inner with chain := chain inner rounds } least left

/-- The readers, in as many activations of each at once as a number of calls allows. -/
def unrolled (rounds : Nat) : Nat → Readers
  | 0 => ⟨exhausted, fun _ => exhausted, fun _ _ => exhausted, exhausted⟩
  | calls + 1 =>
    (operations rounds).layer openLevel (unrolled rounds calls)
      (chain (unrolled rounds calls) rounds)

/-- The reader of a call, in fewer rounds of each loop than a bound, and in as many activations of
each routine at once as a number of calls allows. -/
def reader (rounds calls : Nat) (call : Parser.Call) : Reader call.Node :=
  (operations rounds).reader (unrolled rounds calls) call

end Watched

end SableSyntax
