/- SableSyntax/Proofs/Parsing/Layout
   digest: Blanks and comments change no outcome, whatever was called before. -/

import Mathlib.Data.List.Forall2
import SableSyntax.Proofs.Parsing.ParallelReaders
import SableSyntax.Proofs.Printing.RoundTrip

set_option autoImplicit false
set_option relaxedAutoImplicit false

namespace SableSyntax

namespace Parser.Call

def agrees : (call : Call) → call.Node → call.Node → Bool
  | .program, a, b => a == b
  | .function, a, b => a == b
  | .parameterList, a, b => a == b
  | .parameter, a, b => a == b
  | .block, a, b => a == b
  | .statement, a, b | .variableDeclaration, a, b | .expressionStatement, a, b => a == b
  | .typeExpr, a, b => a == b
  | .expression, a, b | .binary _, a, b | .primary, a, b => a == b

/-- What is read has only floats that are numbers, so it agrees with what is the same apart from
places. -/
theorem agrees_of_unplaced_eq (call : Call) {state reached : ParserState} {node node' : call.Node}
    (read : call.reader state = .ok node reached)
    (same : call.unplaced node = call.unplaced node') : call.agrees node node' := by
  have numeric := readable_restricts_numeric maxNesting .assignment
  cases call with
  | program =>
    obtain ⟨_, -, stop, -, -, derived⟩ := (program_runs state).of_ok read
    exact Program.beq_of_unplaced_eq same ((numeric.programRule stop).1 derived).2.2
  | function =>
    obtain ⟨_, -, derived⟩ := (function_reads.readsAt state).of_ok read
    exact Function.beq_of_unplaced_eq same (numeric.functionRule.1 derived).2.2
  | parameterList => exact list_beq_of_map_eq same fun _ _ _ => Parameter.beq_of_unplaced_eq
  | parameter => exact Parameter.beq_of_unplaced_eq same
  | block =>
    obtain ⟨_, -, derived⟩ := (block_reads.readsAt state).of_ok read
    exact Block.beq_of_unplaced_eq same (numeric.blockRule.1 derived).2.2
  | statement =>
    obtain ⟨_, -, derived⟩ := (statement_reads.readsAt state).of_ok read
    exact Statement.beq_of_unplaced_eq same (numeric.statementRule.1 derived).2.2
  | variableDeclaration =>
    obtain ⟨_, -, derived⟩ := (variableDeclaration_reads.readsAt state).of_ok read
    exact Statement.beq_of_unplaced_eq same (numeric.statementRule.1 derived).2.2
  | expressionStatement =>
    obtain ⟨_, -, derived⟩ := (expressionStatement_reads.readsAt state).of_ok read
    exact Statement.beq_of_unplaced_eq same (numeric.statementRule.1 derived).2.2
  | typeExpr => exact TypeExpr.beq_of_unplaced_eq same
  | expression =>
    obtain ⟨_, -, readable⟩ := (expression_reads.readsAt state).of_ok read
    exact Expression.agrees_of_unplaced_eq same readable.isNumeric
  | binary least =>
    obtain ⟨level, runs⟩ := binary_runs least state
    obtain ⟨_, -, readable⟩ := runs.of_ok read
    exact Expression.agrees_of_unplaced_eq same readable.isNumeric
  | primary =>
    obtain ⟨_, -, readable⟩ := (primary_runs state).of_ok read
    exact Expression.agrees_of_unplaced_eq same readable.isNumeric

end Parser.Call

/-- Results that have the same place in the order of two texts, and are the same apart from their
places in the texts. -/
def Correspondence.ofTexts (source source' : String) : Correspondence where
  Related result result' := LexResult.unplaced result = LexResult.unplaced result' ∧
    ∃ i : Nat, (Cursor.ofText source).results[i]? = some result ∧
      (Cursor.ofText source').results[i]? = some result'
  same := And.left

theorem Correspondence.ahead_ofTexts {source source' : String}
    (same : (Cursor.ofText source).results.map LexResult.unplaced =
      (Cursor.ofText source').results.map LexResult.unplaced) :
    (ofTexts source source').Ahead (.ofText source) (.ofText source') := by
  refine List.forall₂_iff_zip.2 ⟨by simpa using congrArg List.length same, ?_⟩
  intro result result' member
  obtain ⟨i, found⟩ := List.mem_iff_getElem?.1 member
  obtain ⟨found, found'⟩ := List.getElem?_zip_eq_some.1 found
  refine ⟨?_, i, found, found'⟩
  have same := congrArg (·[i]?) same
  simpa [← ParserState.ahead_ofText, found, found'] using same

/-- Layout changes no outcome. Take two texts whose results are the same one by one, apart from
where they stand: the same lexemes, and the same faults between them. Whatever calls were made on
both before, failed or not, a call gives equal nodes, or it fails on both with one fault, at results
of the two texts that correspond. -/
theorem layout_changes_no_outcome {source source' : String}
    (same : (Cursor.ofText source).results.map LexResult.unplaced =
      (Cursor.ofText source').results.map LexResult.unplaced)
    (calls : List Parser.Call) (call : Parser.Call) :
    (∃ node node', (call.reader.step (Parser.after calls (.ofText source))).1 = .ok node ∧
      (call.reader.step (Parser.after calls (.ofText source'))).1 = .ok node' ∧
      call.unplaced node = call.unplaced node' ∧ call.agrees node node') ∨
    (∃ (fault : Fault) (i : Nat) (result result' : LexResult),
      (Cursor.ofText source).results[i]? = some result ∧
      (Cursor.ofText source').results[i]? = some result' ∧
      (call.reader.step (Parser.after calls (.ofText source))).1 = .error ⟨fault, result.span⟩ ∧
      (call.reader.step (Parser.after calls (.ofText source'))).1 =
        .error ⟨fault, result'.span⟩) := by
  have ahead := Correspondence.ahead_after _ calls (Correspondence.ahead_ofTexts same)
  rcases call.parallel _ _ _ ahead with
    ⟨node, node', reached, reached', read, read', same, -⟩ |
    ⟨⟨fault, span⟩, ⟨_, span'⟩, reached, reached', read, read',
      ⟨rfl, result, result', ⟨-, i, found, found'⟩, rfl, rfl⟩, -⟩
  · refine .inl ⟨node, node', ?_, ?_, same, call.agrees_of_unplaced_eq read same⟩
    · simp only [Parser.step, read]
    · simp only [Parser.step, read']
  · refine .inr ⟨fault, i, result, result', found, found', ?_, ?_⟩
    · simp only [Parser.step, read]
    · simp only [Parser.step, read']

/-- A sum in two layouts, read after a call that fails at the character in front of it. -/
theorem layout_changes_no_outcome_sum :
    ∃ node node', (Parser.expression.step
        (Parser.after [.function] (.ofText "$ a+1"))).1 = .ok node ∧
      (Parser.expression.step (Parser.after [.function] (.ofText "/*-*/$a\n+ 1"))).1 = .ok node' ∧
      node.unplaced = node'.unplaced ∧ node.agrees node' := by
  have same : (Cursor.ofText "$ a+1").results.map LexResult.unplaced =
      (Cursor.ofText "/*-*/$a\n+ 1").results.map LexResult.unplaced := by
    decide +kernel
  have read : ((Parser.Call.reader .expression).step
      (Parser.after [.function] (.ofText "$ a+1"))).1.isOk := by
    decide +kernel
  rcases layout_changes_no_outcome same [.function] .expression with
    agree | ⟨fault, _, result, _, -, -, failed, -⟩
  · exact agree
  · rw [failed] at read
    cases read

end SableSyntax
