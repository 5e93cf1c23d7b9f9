/- SableSyntax/Proofs/Sessions/Streams
   digest: What a session answers depends on the call and on the results that are left, alone. -/

import Mathlib.Data.List.Forall2
import Mathlib.Logic.Function.Basic
import SableSyntax.Proofs.Parsing.ParallelReaders
import SableSyntax.Proofs.Sessions.Readers

set_option autoImplicit false
set_option relaxedAutoImplicit false

namespace SableSyntax

section Answers

def Correspondence.identity : Correspondence where
  Related := Eq
  same := congrArg LexResult.unplaced

theorem Correspondence.identity_ahead_iff {state state' : ParserState} :
    identity.Ahead state state' ↔ state.ahead = state'.ahead := by
  simp only [Ahead, identity, List.forall₂_eq_eq_eq]

namespace Parser

variable {α : Type} {parser : Parser α} {state state' : ParserState}
  {done : List Token → α → ParserState → Prop} {cut : List Token → Prop}

theorem Runs.outcome_eq (runs : parser.Runs state done cut) (same : state.ahead = state'.ahead) :
    (parser.step state).1 = (parser.step state').1 := by
  unfold Runs at runs
  unfold step
  cases read : parser state with
  | ok value reached =>
    simp only [read] at runs ⊢
    obtain ⟨used, -, -, steady⟩ := runs
    obtain ⟨last, read', -⟩ := steady state' (by rw [ParserState.SameAhead, same])
    rw [read']
  | error error reached =>
    simp only [read] at runs ⊢
    obtain ⟨used, -, -, -, -, -, steady⟩ := runs
    obtain ⟨last, read'⟩ := steady state' (by rw [ParserState.SameAhead, same])
    rw [read']

def Call.effect (call : Call) (state : ParserState) :
    Except SyntaxError call.Node × List LexResult :=
  ((call.reader.step state).1, (call.reader.step state).2.ahead)

theorem Call.effect_factorsThrough (call : Call) :
    Function.FactorsThrough call.effect ParserState.ahead := by
  intro state state' same
  have left := (call.parallel .identity state state'
    (Correspondence.identity_ahead_iff.2 same)).ahead_step
  rw [Correspondence.identity_ahead_iff] at left
  rw [effect, effect, (call.places state).outcome_eq same, left]

theorem ahead_after {answer : (call : Call) → List LexResult →
      Except SyntaxError call.Node × List LexResult}
    (answers : ∀ (call : Call) state, call.effect state = answer call state.ahead)
    (calls : List Call) (state : ParserState) : (after calls state).ahead =
      calls.foldl (fun results call => (answer call results).2) state.ahead := by
  induction calls generalizing state with
  | nil => rfl
  | cons call calls ih =>
    rw [List.foldl_cons, ← answers]
    exact ih (call.reader.step state).2

end Parser

end Answers

namespace Session

variable {source : String} {session : Session}

def lexicalErrors {α : Type} : Except SyntaxError α → List SyntaxError
  | .ok _ => []
  | .error error => error.lexical

/-- What a call comes to where no level is open, told by the parser's call from the same state. -/
structure Answers (session : Session) (call : Parser.Call)
    (answer : Except SyntaxError call.Node × Session) : Prop where
  same : call.reader.step session.toParserState = (answer.1, answer.2.toParserState)
  closed : answer.2.openLevels = 0
  leads : Leads session (lexicalErrors answer.1) answer.2

theorem step_answers (beyond : Readers) (call : Parser.Call) (closed : session.openLevels = 0) :
    Answers session call (step (reader beyond call) session) := by
  rcases reader_mirrors beyond call session closed with
    ⟨value, reached, read, read', leads, ended, -⟩ | ⟨error, reached, read, read', leads, ended⟩
  · simp only [step, read]
    exact ⟨by simp only [Parser.step, read'], ended, leads⟩
  · simp only [step, read]
    exact ⟨by simp only [Parser.step, read'], ended, leads⟩

/-- A session of a text between two calls. What was taken off the text are its first results, and
the tokens among them are those that were used and, behind them, those that are buffered. -/
structure Settled (source : String) (session : Session) : Prop where
  closed : session.openLevels = 0
  buffered : session.lookahead.length ≤ 2
  drawn : (Cursor.ofText source).draws session.drawn.length = (session.drawn, session.cursor)
  kept : session.drawn.filterMap Except.toOption = session.used ++ session.lookahead

theorem settled_ofText (source : String) : Settled source (ofText source) :=
  ⟨rfl, Nat.zero_le _, rfl, rfl⟩

theorem Settled.step (settled : Settled source session) (beyond : Readers) (call : Parser.Call) :
    Settled source (Session.step (reader beyond call) session).2 := by
  obtain ⟨-, closed, ⟨buffered, tokens, fresh, shape, draws, drawn, kept⟩⟩ :=
    step_answers beyond call settled.closed
  refine ⟨closed, ?_, ?_, ?_⟩
  · have := settled.buffered
    omega
  · rw [drawn]
    exact Cursor.draws_append settled.drawn draws
  · rw [drawn, kept, shape]
    simp [settled.kept, Except.toOption, Function.comp_def]

theorem settled_after (beyond : Readers) (calls : List Parser.Call)
    (settled : Settled source session) : Settled source (after beyond calls session) := by
  induction calls generalizing session with
  | nil => exact settled
  | cons call calls ih => exact ih (settled.step beyond call)

theorem toParserState_after (beyond : Readers) (calls : List Parser.Call)
    (settled : Settled source session) :
    (after beyond calls session).toParserState = Parser.after calls session.toParserState := by
  induction calls generalizing session with
  | nil => rfl
  | cons call calls ih =>
    have same := (step_answers beyond call settled.closed).same
    simp only [after, Parser.after, List.foldl_cons, same]
    exact ih (settled.step beyond call)

/-- A session keeps to the stream of results of its text. There is one answer to each call and each
stream of results ahead, with the results that are left behind it, and a session gives it wherever
no level is open: where its last token stopped, how much of the stream is buffered and what failed
before make no difference. What a call takes off the text are tokens, but for an error that it
returns. Hence after any calls, failed or not, a session has ahead what the answers left; no level
is open, two tokens at most are buffered, and what was taken off the text are its first results, of
which the tokens have all been used or are buffered, in order. -/
theorem session_keeps_to_stream : ∃ answer : (call : Parser.Call) → List LexResult →
      Except SyntaxError call.Node × List LexResult,
    ∀ beyond : Readers,
      (∀ session : Session, session.openLevels = 0 → ∀ call outcome reached,
        step (reader beyond call) session = (outcome, reached) →
          call.reader.step session.toParserState = (outcome, reached.toParserState) ∧
          answer call session.ahead = (outcome, reached.ahead) ∧
          ∃ tokens : List Token, reached.drawn =
            session.drawn ++ (tokens.map .ok ++ (lexicalErrors outcome).map .error)) ∧
      ∀ (source : String) (calls : List Parser.Call),
        Settled source (after beyond calls (.ofText source)) ∧
        (after beyond calls (.ofText source)).toParserState =
          Parser.after calls (.ofText source) ∧
        (after beyond calls (.ofText source)).ahead =
          calls.foldl (fun results call => (answer call results).2)
            (Cursor.ofText source).results := by
  have inhabited (call : Parser.Call) : Nonempty (Except SyntaxError call.Node × List LexResult) :=
    ⟨call.effect (.ofText "")⟩
  choose answer factors using fun call : Parser.Call =>
    (Function.factorsThrough_iff call.effect).1 call.effect_factorsThrough
  have answers (call : Parser.Call) (state : ParserState) :
      call.effect state = answer call state.ahead := congrFun (factors call) state
  refine ⟨answer, fun beyond => ⟨fun session closed call outcome reached stepped => ?_,
    fun source calls => ⟨settled_after beyond calls (settled_ofText source), ?_, ?_⟩⟩⟩
  · have ⟨same, _, leads⟩ := step_answers beyond call closed
    rw [stepped] at same leads
    obtain ⟨tokens, fresh, shape, -, drawn, -⟩ := leads.history
    refine ⟨same, ?_, tokens, shape ▸ drawn⟩
    rw [← answers, Parser.Call.effect, same]
  · exact toParserState_after beyond calls (settled_ofText source)
  · rw [toParserState_after beyond calls (settled_ofText source)]
    exact Parser.ahead_after answers calls _

/-- A sum is read alike from the start of a text and behind a call that failed at its first token,
which is buffered by then. -/
theorem session_keeps_to_stream_sum : ∃ beyond : Readers,
    (after beyond [.function] (.ofText "a+1")).lookahead.length = 1 ∧
    (step (reader beyond .expression) (after beyond [.function] (.ofText "a+1"))).1 =
      (step (reader beyond .expression) (.ofText "a+1")).1 := by
  let error : SyntaxError := ⟨.nestingTooDeep maxNesting, .point .start⟩
  let beyond : Readers := ⟨throw error, fun _ => throw error, fun _ _ => throw error, throw error⟩
  obtain ⟨answer, keeps⟩ := session_keeps_to_stream
  have ⟨answers, settles⟩ := keeps beyond
  have closed := (settles "a+1" [.function]).1.closed
  have same : (after beyond [.function] (.ofText "a+1")).ahead = (ofText "a+1").ahead := by
    decide +kernel
  have behind := (answers _ closed .expression _ _ (Prod.eta _).symm).2.1
  have fresh := (answers (.ofText "a+1") rfl .expression _ _ (Prod.eta _).symm).2.1
  rw [same, fresh] at behind
  exact ⟨beyond, by decide +kernel, (Prod.mk.inj behind).1.symm⟩

end Session

end SableSyntax
