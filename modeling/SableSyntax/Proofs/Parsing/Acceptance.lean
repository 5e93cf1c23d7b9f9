/- SableSyntax/Proofs/Parsing/Acceptance
   digest: A text is read as a program if and only if its tokens derive it within the limits. -/

import SableSyntax.Proofs.Grammar.Meaning
import SableSyntax.Proofs.Grammar.Limits
import SableSyntax.Proofs.Parsing.ProgramCompleteness

set_option autoImplicit false
set_option relaxedAutoImplicit false

namespace SableSyntax

open Grammar

namespace Parser

variable {α : Type}

theorem Runs.of_ok {parser : Parser α} {state reached : ParserState} {value : α}
    {done : List Token → α → ParserState → Prop} {cut : List Token → Prop}
    (runs : parser.Runs state done cut) (h : parser state = .ok value reached) :
    ∃ used, state.ahead = used.map .ok ++ reached.ahead ∧ done used value reached := by
  simp only [Runs, h] at runs
  obtain ⟨used, took, holds, -⟩ := runs
  exact ⟨used, took.ahead_eq, holds⟩

theorem runOn_eq_ok_iff {parser : Parser α} {source : String} {value : α} :
    parser.runOn source = .ok value ↔ ∃ reached, parser (.ofText source) = .ok value reached := by
  simp only [runOn, step]
  cases h : parser (.ofText source) <;> simp

theorem runOn_eq_error_iff {parser : Parser α} {source : String} {error : SyntaxError} :
    parser.runOn source = .error error ↔
      ∃ reached, parser (.ofText source) = .error error reached := by
  simp only [runOn, step]
  cases h : parser (.ofText source) <;> simp

end Parser

theorem end_of_tokenize {source : String} {tokens : List Token} {stop : Token}
    (h : tokenize source = .ok (tokens ++ [stop])) :
    stop.toLexeme = ⟨.endOfInput, ""⟩ ∧ ∀ token ∈ tokens, token.kind ≠ .endOfInput := by
  obtain ⟨body, last, same, atEnd, others⟩ := (Cursor.ofText source).exists_results_eq_append_end
  rw [tokenize_eq_ok_iff.1 h, List.map_append] at same
  obtain ⟨rfl, same'⟩ := List.append_inj' same rfl
  obtain rfl : stop = last := by simpa using same'
  exact ⟨atEnd, fun token member => others token (List.mem_map_of_mem member)⟩

theorem kind_of_tokenize {source : String} {tokens : List Token} {stop : Token}
    (h : tokenize source = .ok (tokens ++ [stop])) : stop.kind = .endOfInput :=
  congrArg Lexeme.kind (end_of_tokenize h).1

/-- A text is read as a program if its tokens up to the end derive the program, within the limits
on numbers and nesting. -/
theorem parse_eq_ok_iff {source : String} {program : Program} :
    parse source = .ok program ↔ ∃ tokens stop, tokenize source = .ok (tokens ++ [stop]) ∧
      Parser.ProgramUpTo stop tokens program := by
  rw [parse, Parser.runOn_eq_ok_iff]
  constructor
  · intro h
    rcases h with ⟨reached, h⟩
    obtain ⟨used, same, stop, -, ended, derived⟩ := (Parser.program_runs _).of_ok h
    refine ⟨used, stop, ?_, derived⟩
    rw [tokenize_eq_ok_iff, ← ParserState.ahead_ofText, same, ended, List.map_append]
    rfl
  · intro h
    rcases h with ⟨tokens, stop, h, derived⟩
    have results := tokenize_eq_ok_iff.1 h
    rw [List.map_append] at results
    obtain ⟨reached, read, -⟩ := Parser.program_yields derived (kind_of_tokenize h)
      (.ofText source) results
    exact ⟨reached, read⟩

theorem Program.need_le_of_unplaced_eq {program program' : Program} {levels : Nat}
    (same : program.unplaced = program'.unplaced)
    (shallow : ∀ e ∈ program.expressions, e.need ≤ levels) :
    ∀ e ∈ program'.expressions, e.need ≤ levels := by
  have same' := congrArg Program.expressions same
  rw [Program.expressions_unplaced, Program.expressions_unplaced] at same'
  intro e member
  have unplaced := List.mem_map_of_mem (f := Expression.unplaced) member
  rw [← same'] at unplaced
  obtain ⟨other, member', same''⟩ := List.mem_map.1 unplaced
  rw [← Expression.need_unplaced, ← same'', Expression.need_unplaced]
  exact shallow other member'

/-- Lexemes derive a program apart from places: put anywhere, they make up the program. -/
def Grammar.Derives (lexemes : List Lexeme) (program : Program) : Prop :=
  ∃ tokens stop placed, tokens.map Token.toLexeme = lexemes ∧
    ProgramRule (ExpressionRule .assignment) stop tokens placed ∧
    placed.unplaced = program.unplaced

/-- Reading accepts exactly what the grammar derives, and builds the tree of the derivation: a text
is read as a program if and only if it falls into tokens that derive the program, all numbers
among them are in range, and no expression needs more levels than the bound on nesting. -/
theorem parse_accepts_iff_derives (source : String) (program : Program) :
    (∃ read, parse source = .ok read ∧ read.unplaced = program.unplaced) ↔
      ∃ tokens stop, tokenize source = .ok (tokens ++ [stop]) ∧
        Derives (tokens.map Token.toLexeme) program ∧ (∀ token ∈ tokens, token.InRange) ∧
        ∀ e ∈ program.expressions, e.need ≤ maxNesting := by
  have limits := (readable_restricts maxNesting .assignment).programRule
  constructor
  · intro h
    rcases h with ⟨read, h, same⟩
    obtain ⟨tokens, stop, lexed, derived⟩ := parse_eq_ok_iff.1 h
    obtain ⟨derived, inRange, shallow⟩ := (limits stop).1 derived
    exact ⟨tokens, stop, lexed, ⟨tokens, stop, read, rfl, derived, same⟩, inRange,
      Program.need_le_of_unplaced_eq same shallow⟩
  · intro h
    rcases h with ⟨tokens, stop, lexed, ⟨tokens', stop', placed, lexemes, derived, same⟩,
      inRange, shallow⟩
    obtain ⟨read, derived, same'⟩ := programRule_transports (expressionRule_transports _) derived
      (.of_toLexeme_eq lexemes) stop
    have same'' := same'.trans same
    refine ⟨read, parse_eq_ok_iff.2 ⟨tokens, stop, lexed, (limits stop).2 ⟨derived, inRange, ?_⟩⟩,
      same''⟩
    exact Program.need_le_of_unplaced_eq same''.symm shallow

end SableSyntax
