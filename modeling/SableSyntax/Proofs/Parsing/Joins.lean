/- SableSyntax/Proofs/Parsing/Joins
   digest: A program with another text below it is read as the program, and then the text by
   itself, moved down. -/

import Mathlib.Data.List.Forall2
import SableSyntax.Proofs.Grammar.Moves
import SableSyntax.Proofs.Lexing.Joins
import SableSyntax.Proofs.Parsing.FirstError
import SableSyntax.Proofs.Parsing.ParallelReaders

set_option autoImplicit false
set_option relaxedAutoImplicit false

namespace SableSyntax

open Grammar (Many FunctionRule ProgramRule functionRule_moves programRule_moves readable_moves)

/-- Two programs that are written one below the other. One without functions is but a place, and
that place does not count if the other one has some. -/
def Program.join (above below : Program) : Program :=
  ⟨above.functions ++ below.functions,
    if above.functions.isEmpty then below.span
    else if below.functions.isEmpty then above.span
    else above.span.through below.span⟩

theorem programUpTo_join {stop stop' : Token} {tokens more : List Token} {above below : Program}
    (derived : Parser.ProgramUpTo stop tokens above)
    (derived' : Parser.ProgramUpTo stop' more below) :
    Parser.ProgramUpTo stop' (tokens ++ more) (above.join below) := by
  obtain @⟨functions, derived⟩ := derived
  obtain @⟨functions', derived'⟩ := derived'
  have whole := @ProgramRule.intro _ stop' _ _ (derived.append derived')
  cases derived with
  | nil => exact whole
  | @cons front rest function functions head tail =>
    -- A function starts with a token, and so does the whole.
    obtain ⟨first, others, rfl⟩ : ∃ first others, front = first :: others := by
      cases head
      exact ⟨_, _, rfl⟩
    cases derived' with
    | nil => simpa [Program.join, List.getLast?_cons] using whole
    | cons =>
      rw [List.getLast?_append] at whole
      simpa [Program.join, List.getLast?_cons, Span.through] using whole

namespace Correspondence

variable {move : Location → Location}

def moved (move : Location → Location) : Correspondence where
  Related result result' := result' = LexResult.moved move result
  same := by
    intro result _ same
    subst same
    exact (LexResult.unplaced_moved result).symm

theorem eq_moved_of_blames {error error' : SyntaxError} (h : (moved move).Blames error error') :
    error' = error.moved move := by
  obtain ⟨fault, span⟩ := error
  obtain ⟨fault', span'⟩ := error'
  obtain ⟨rfl, result, _, rfl, rfl, rfl⟩ := h
  rw [LexResult.span_moved]
  rfl

theorem ahead_moved {state state' : ParserState}
    (same : state'.ahead = state.ahead.map (LexResult.moved move)) :
    (moved move).Ahead state state' := by
  rw [Ahead, same, List.forall₂_map_right_iff]
  exact List.forall₂_same.2 fun _ _ => rfl

theorem program_inStep {tokens : List Token} {functions : List Function} {next : Token}
    {more : List LexResult} {state state' : ParserState}
    (derived : Many (Parser.Bounded FunctionRule) tokens functions)
    (ahead : state.ahead = .ok next :: more)
    (ahead' : state'.ahead = tokens.map .ok ++ state.ahead.map (LexResult.moved move)) :
    (moved move).InStep (fun _ => ()) Parser.program Parser.program state state' := by
  rw [ahead] at ahead'
  have starts : ∀ used value, Parser.Bounded FunctionRule used value →
      ∃ first rest, used = first :: rest ∧ (first.kind == .func) = true ∧ True := by
    rintro _ _ ⟨func⟩
    exact ⟨_, _, rfl, by simp [func], trivial⟩
  obtain ⟨looked, looks, same⟩ := Parser.peek_yields state ahead
  obtain ⟨first, looked', looks', same'⟩ : ∃ first reached,
      Parser.peek state' = .ok first reached ∧ reached.ahead = state'.ahead := by
    cases tokens with
    | nil =>
      obtain ⟨reached, looks', same'⟩ := Parser.peek_yields state' ahead'
      exact ⟨_, reached, looks', same'.trans ahead'.symm⟩
    | cons first tokens =>
      obtain ⟨reached, looks', same'⟩ := Parser.peek_yields state' ahead'
      exact ⟨_, reached, looks', same'.trans ahead'.symm⟩
  obtain ⟨reached, ahead'', goesOn⟩ := Parser.repeatWhile_over
    (fun state _ _ _ => Parser.function_reads.readsAt state) starts Parser.function_completes
    derived trivial (same'.trans ahead')
  have behind : (moved move).Ahead looked reached := ahead_moved (by rw [same, ahead'']; rfl)
  -- What is done behind the functions depends on them and on the first token, if it succeeds.
  obtain ⟨go, whole, ends⟩ : ∃ go : Token → List Function → Parser Program,
      Parser.program = (do
        let first ← Parser.peek
        let functions ← Parser.repeatWhile (·.kind == .func) Parser.function
        go first functions) ∧
      ∀ first first' functions functions',
        (moved move).Parallel (fun _ => ()) (go first functions) (go first' functions') :=
    ⟨_, rfl, fun _ _ _ _ => upToEnd_parallel (record_bind_parallel (by
      simp only [Parser.operations_programSpan, pure_bind]
      exact .pure rfl))⟩
  have here : Parser.program state =
      (do
        let functions ← Parser.repeatWhile (·.kind == TokenKind.func) Parser.function
        go next functions) looked := by
    simp only [whole, Bind.bind, EStateM.bind, looks]
  have there : Parser.program state' =
      (do
        let rest ← Parser.repeatWhile (·.kind == TokenKind.func) Parser.function
        go first (functions ++ rest)) reached := by
    simp only [whole, Bind.bind, EStateM.bind, looks'] at goesOn ⊢
    rw [goesOn]
    cases Parser.repeatWhile (·.kind == .func) Parser.function reached <;> rfl
  rw [InStep, here, there]
  exact (functions_parallel looked reached behind).bind fun _ _ _ => ends _ _ _ _

end Correspondence

section Joins

variable {above text : String} {tokens : List Token} {stop : Token} {program : Program}

private theorem parse_below_fault (lexed : tokenize above = .ok (tokens ++ [stop]))
    (derived : Parser.ProgramUpTo stop tokens program) {error : SyntaxError}
    {rest : List LexResult} (fault : (Cursor.ofText text).results = .error error :: rest) :
    parse (above ++ "\n" ++ text) = .error (error.moved (.below above.toList)) := by
  have results := results_below lexed text
  rw [fault, List.map_cons] at results
  have drained : (Lexer.ofText (above ++ "\n" ++ text)).drain.1 =
      tokens.map .ok ++ [.error (error.moved (.below above.toList))] := by
    rw [Lexer.drain_ofText, results, untilFault_map_ok_append]
    rfl
  cases outcome : parse (above ++ "\n" ++ text) with
  | ok whole =>
    obtain ⟨all, last, lexed', -⟩ := parse_eq_ok_iff.1 outcome
    cases lexed'.symm.trans (tokenize_eq_error results)
  | error error' =>
    rcases failsAt_of_parse_eq_error outcome with
      ⟨before, drained', -⟩ | ⟨before, token, after, drained', -, -, ends, -⟩
    · have last := congrArg List.getLast? (drained.symm.trans drained')
      simpa using last.symm
    · -- All tokens in front of the fault are those of the program, so none of them is at fault.
      obtain ⟨middle, rfl⟩ := exists_middle_of_fault (drained.symm.trans drained')
      have accepted : Accepted ((before ++ token :: middle ++ [stop]).map Token.toLexeme) :=
        ⟨above, program, _, parse_eq_ok_iff.2 ⟨_, stop, lexed, derived⟩, lexed, rfl⟩
      refine absurd ⟨(middle ++ [stop]).map Token.toLexeme, ?_⟩ ends
      simpa using accepted

theorem parse_below_error (lexed : tokenize above = .ok (tokens ++ [stop]))
    (derived : Parser.ProgramUpTo stop tokens program) {error : SyntaxError}
    (failed : parse text = .error error) :
    parse (above ++ "\n" ++ text) = .error (error.moved (.below above.toList)) := by
  obtain ⟨functions, listed⟩ : ∃ functions,
      Many (Parser.Bounded FunctionRule) tokens functions := by
    obtain ⟨listed⟩ := derived
    exact ⟨_, listed⟩
  obtain ⟨first, rest, results⟩ :=
    List.exists_cons_of_ne_nil (Cursor.ofText text).results_ne_nil
  obtain ⟨reached, read⟩ := Parser.runOn_eq_error_iff.1 failed
  cases first with
  | error fault =>
    obtain ⟨looked, looks, -⟩ :=
      @Parser.peek_of_fault_cons (.ofText text) fault rest (by simpa using results)
    have stops : Parser.program (.ofText text) = .error fault looked := by
      simp only [Parser.program, Operations.program, Bind.bind, EStateM.bind,
        Parser.operations_peek, looks]
    obtain rfl : error = fault := by
      rw [read] at stops
      cases stops
      rfl
    exact parse_below_fault lexed derived results
  | ok next =>
    have runs := @Correspondence.program_inStep (.below above.toList) tokens functions next rest
      (.ofText text) (.ofText (above ++ "\n" ++ text)) listed (by simpa using results)
      (by simpa using results_below lexed text)
    rcases runs with ⟨_, _, _, _, read', -⟩ | ⟨_, error', _, reached', read', failed', blames, -⟩
    · cases read.symm.trans read'
    · cases read.symm.trans read'
      obtain rfl := Correspondence.eq_moved_of_blames blames
      exact Parser.runOn_eq_error_iff.2 ⟨reached', failed'⟩

theorem parse_below_ok (lexed : tokenize above = .ok (tokens ++ [stop]))
    (derived : Parser.ProgramUpTo stop tokens program) {below : Program}
    (accepted : parse text = .ok below) :
    parse (above ++ "\n" ++ text) = .ok (program.join (below.moved (.below above.toList))) := by
  obtain ⟨more, stop', lexed', derived'⟩ := parse_eq_ok_iff.1 accepted
  have whole := tokenize_below lexed text
  rw [lexed'] at whole
  simp only [List.map_append, List.map_cons, List.map_nil, ← List.append_assoc] at whole
  have moved := programRule_moves (@readable_moves (.below above.toList) maxNesting .assignment)
    derived'
  exact parse_eq_ok_iff.2 ⟨_, _, whole, programUpTo_join derived moved⟩

end Joins

end SableSyntax
