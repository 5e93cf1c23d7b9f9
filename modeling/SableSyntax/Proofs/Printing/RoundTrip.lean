/- SableSyntax/Proofs/Printing/RoundTrip
   digest: The canonical text of what was read is read as an equal tree with the same text. -/

import Mathlib.Control.Monad.Basic
import SableSyntax.Proofs.Parsing.Acceptance
import SableSyntax.Proofs.Printing.Trees

set_option autoImplicit false
set_option relaxedAutoImplicit false

namespace SableSyntax

open Grammar

section Numbers

theorem Grammar.ExpressionRule.isNumeric {level : Precedence} {tokens : List Token}
    {value : Expression} (derived : ExpressionRule level tokens value)
    (inRange : ∀ token ∈ tokens, token.InRange) : value.IsNumeric := by
  induction derived with
  | integer | identifier => trivial
  | @float token kind =>
    have inRange := inRange token List.mem_cons_self
    simp only [Lexeme.InRange, kind] at inRange
    exact not_isNaN_of_isFinite inRange
  | parenthesized _ _ _ ih =>
    simp only [List.forall_mem_cons, List.forall_mem_append] at inRange
    exact ih inRange.2.1
  | product _ ih | sum _ ih | chain _ ih => exact ih inRange
  | link _ _ _ ihLeft ihRight =>
    simp only [List.forall_mem_cons, List.forall_mem_append] at inRange
    exact ⟨ihLeft inRange.1, ihRight inRange.2.2⟩
  | assignment _ _ _ ih =>
    simp only [List.forall_mem_cons] at inRange
    exact ih inRange.2.2

theorem Grammar.Readable.isNumeric {levels : Nat} {level : Precedence} {tokens : List Token}
    {value : Expression} (readable : Readable levels level tokens value) : value.IsNumeric :=
  readable.derived.isNumeric readable.inRange

theorem readable_restricts_numeric (levels : Nat) (level : Precedence) :
    Restricts (Readable levels level) (Readable levels level) Expression.IsNumeric :=
  fun _ _ => ⟨fun readable => ⟨readable, readable.inRange, readable.isNumeric⟩, fun h => h.1⟩

end Numbers

inductive Entry : Type → Type
  | program : Entry Program
  | function : Entry Function
  | parameter : Entry Parameter
  | block : Entry Block
  | statement : Entry Statement
  | expression : Entry Expression
  | type : Entry TypeExpr

namespace Entry

variable {α : Type}

def reader : Entry α → Parser α
  | .program => Parser.program
  | .function => Parser.function
  | .parameter => Parser.parameter
  | .block => Parser.block
  | .statement => Parser.statement
  | .expression => Parser.expression
  | .type => Parser.typeExpr

def text : Entry α → α → String
  | .program => Program.text
  | .function => Function.text
  | .parameter => Parameter.text
  | .block => Block.text
  | .statement => Statement.text
  | .expression => Expression.text
  | .type => TypeExpr.text

def agrees : Entry α → α → α → Bool
  | .program, a, b => a == b
  | .function, a, b => a == b
  | .parameter, a, b => a == b
  | .block, a, b => a == b
  | .statement, a, b => a == b
  | .expression, a, b => a == b
  | .type, a, b => a == b

def unplaced : Entry α → α → α
  | .program => Program.unplaced
  | .function => Function.unplaced
  | .parameter => Parameter.unplaced
  | .block => Block.unplaced
  | .statement => Statement.unplaced
  | .expression => Expression.unplaced
  | .type => TypeExpr.unplaced

def rule (stop : Token) : Entry α → List Token → α → Prop
  | .program => Parser.ProgramUpTo stop
  | .function => Parser.Bounded FunctionRule
  | .parameter => ParameterRule
  | .block => Parser.Bounded BlockRule
  | .statement => Parser.Bounded StatementRule
  | .expression => Readable maxNesting .assignment
  | .type => TypeRule

theorem text_unplaced (entry : Entry α) (node : α) :
    entry.text (entry.unplaced node) = entry.text node := by
  cases entry <;> simp [text, unplaced]

theorem exists_rule (entry : Entry α) {source : String} {node : α}
    (read : entry.reader.runOn source = .ok node) :
    ∃ stop tokens, (∀ token ∈ tokens, token.WellSpelled) ∧ entry.rule stop tokens node := by
  obtain ⟨reached, read⟩ := Parser.runOn_eq_ok_iff.1 read
  have derived : ∃ stop tokens, (Cursor.ofText source).results = tokens.map .ok ++ reached.ahead ∧
      entry.rule stop tokens node := by
    cases entry with
    | program =>
      obtain ⟨tokens, ahead, stop, -, -, derived⟩ := (Parser.program_runs _).of_ok read
      exact ⟨stop, tokens, ahead, derived⟩
    | function => exact ⟨.sample .endOfInput, (Parser.function_reads.readsAt _).of_ok read⟩
    | parameter => exact ⟨.sample .endOfInput, (Parser.parameter_reads.readsAt _).of_ok read⟩
    | block => exact ⟨.sample .endOfInput, (Parser.block_reads.readsAt _).of_ok read⟩
    | statement => exact ⟨.sample .endOfInput, (Parser.statement_reads.readsAt _).of_ok read⟩
    | expression => exact ⟨.sample .endOfInput, (Parser.expression_reads.readsAt _).of_ok read⟩
    | type => exact ⟨.sample .endOfInput, (Parser.typeExpr_reads.readsAt _).of_ok read⟩
  obtain ⟨stop, tokens, ahead, derived⟩ := derived
  -- Something is ahead still, if only the end of the text, so the tokens taken are other tokens.
  obtain ⟨next, rest, same⟩ := List.exists_cons_of_ne_nil reached.ahead_ne_nil
  rw [same] at ahead
  exact ⟨stop, tokens, wellSpelled_of_results ahead, derived⟩

theorem rule_transports (entry : Entry α) {stop : Token} {tokens tokens' : List Token} {node : α}
    (derived : entry.rule stop tokens node) (alike : Alike tokens tokens') (stop' : Token) :
    ∃ node', entry.rule stop' tokens' node' ∧ entry.unplaced node' = entry.unplaced node := by
  have expressions := readable_transports maxNesting .assignment
  cases entry with
  | program => exact programRule_transports expressions derived alike stop'
  | function => exact functionRule_transports expressions derived alike
  | parameter => exact parameterRule_transports derived alike
  | block => exact blockRule_transports expressions derived alike
  | statement => exact statementRule_transports expressions derived alike
  | expression => exact expressions derived alike
  | type => exact typeRule_transports derived alike

theorem writes_text (entry : Entry α) {stop : Token} {tokens : List Token} {node : α}
    (derived : entry.rule stop tokens node) (spelled : ∀ token ∈ tokens, token.WellSpelled) :
    Writes Clear (entry.text node) tokens := by
  have expressions := readable_prints maxNesting .assignment
  cases entry with
  | program => exact (programRule_prints expressions stop derived spelled).mono fun _ _ => trivial
  | function => exact (functionRule_prints expressions derived spelled).mono fun _ _ => trivial
  | parameter => exact parameterRule_prints derived spelled
  | block => exact (blockRule_prints expressions derived spelled).mono fun _ _ => trivial
  | statement => exact (statementRule_prints expressions derived spelled).mono fun _ _ => trivial
  | expression => exact expressions derived spelled
  | type => exact typeRule_prints derived spelled

theorem rule_prints (entry : Entry α) (stop : Token) {tokens : List Token} {node : α}
    (derived : entry.rule stop tokens node) (spelled : ∀ token ∈ tokens, token.WellSpelled) :
    ∃ lexemes, lexemes.map Lexeme.meaning = tokens.map (·.meaning) ∧
      ∀ rest, Clear rest → Lexes (entry.text node).toList rest lexemes :=
  (entry.writes_text derived spelled).lexes

theorem reader_yields (entry : Entry α) {stop : Token} {tokens : List Token} {node : α}
    (derived : entry.rule stop tokens node) (atEnd : stop.kind = .endOfInput) :
    entry.reader.Yields (tokens.map .ok ++ [.ok stop]) node [.ok stop] := by
  cases entry with
  | program => exact Parser.program_yields derived atEnd
  | function => exact Parser.function_completes tokens node stop [] derived trivial
  | parameter =>
    exact Parser.parameter_completes tokens node stop [] derived (by simp [Token.EndsType, atEnd])
  | block => exact Parser.block_completes tokens node stop [] derived trivial
  | statement => exact Parser.statement_completes tokens node stop [] derived trivial
  | expression =>
    exact Parser.expression_completes tokens node stop [] derived
      (by simp [Token.EndsExpression, atEnd, TokenKind.operatorRule?])
  | type =>
    exact Parser.typeExpr_completes tokens node stop [] derived (by simp [Token.EndsType, atEnd])

theorem agrees_of_unplaced_eq (entry : Entry α) {stop : Token} {tokens : List Token}
    {node node' : α} (derived : entry.rule stop tokens node)
    (same : entry.unplaced node = entry.unplaced node') :
    entry.agrees node node' := by
  have numeric := readable_restricts_numeric maxNesting .assignment
  cases entry with
  | program => exact Program.beq_of_unplaced_eq same ((numeric.programRule stop).1 derived).2.2
  | function => exact Function.beq_of_unplaced_eq same (numeric.functionRule.1 derived).2.2
  | parameter => exact Parameter.beq_of_unplaced_eq same
  | block => exact Block.beq_of_unplaced_eq same (numeric.blockRule.1 derived).2.2
  | statement => exact Statement.beq_of_unplaced_eq same (numeric.statementRule.1 derived).2.2
  | expression => exact Expression.agrees_of_unplaced_eq same (numeric.1 derived).2.2
  | type => exact TypeExpr.beq_of_unplaced_eq same

end Entry

/-- Whatever kind of node a text is read as, the canonical text of the node is read as an equal
node, up to the end of the text, and is the canonical text of that node too. -/
theorem canonical_text_reads_back {α : Type} (entry : Entry α) (source : String) (node : α)
    (read : entry.reader.runOn source = .ok node) :
    ∃ again reached stop, entry.reader (.ofText (entry.text node)) = .ok again reached ∧
      reached.ahead = [.ok stop] ∧ stop.kind = .endOfInput ∧
      entry.agrees again node ∧ entry.text again = entry.text node := by
  obtain ⟨stop, tokens, spelled, derived⟩ := entry.exists_rule read
  obtain ⟨lexemes, meaning, lexes⟩ := entry.rule_prints stop derived spelled
  have clear : Clear [] := by simp [Clear]
  obtain ⟨tokens', stop', lexed, lexemes', lexemeStop⟩ := tokenize_of_lexes (lexes [] clear)
  have alike : Alike tokens tokens' := by
    have same := congrArg (List.map Lexeme.meaning) lexemes'
    rw [List.map_map, meaning] at same
    exact same.symm
  obtain ⟨again, derived', same⟩ := entry.rule_transports derived alike stop'
  have atEnd : stop'.kind = .endOfInput := congrArg Lexeme.kind lexemeStop
  have results := tokenize_eq_ok_iff.1 lexed
  rw [List.map_append] at results
  obtain ⟨reached, back, left⟩ := entry.reader_yields derived' atEnd (.ofText _) results
  refine ⟨again, reached, stop', back, left, atEnd, entry.agrees_of_unplaced_eq derived' same, ?_⟩
  rw [← entry.text_unplaced, same, entry.text_unplaced]

theorem canonical_text_reads_back_assignment : ∃ again reached stop,
    Parser.expression (.ofText "a = 1.5") = .ok again reached ∧
      reached.ahead = [.ok stop] ∧ stop.kind = .endOfInput ∧
      again.agrees (.assignment ⟨"a", ⟨⟨0, 1, 1⟩, ⟨1, 1, 2⟩⟩⟩
        (.float ⟨4609434218613702656⟩ ⟨⟨2, 1, 3⟩, ⟨7, 1, 8⟩⟩) ⟨⟨0, 1, 1⟩, ⟨7, 1, 8⟩⟩) ∧
      again.text = "a = 1.5" := by
  have written : Expression.text (.assignment ⟨"a", ⟨⟨0, 1, 1⟩, ⟨1, 1, 2⟩⟩⟩
      (.float ⟨4609434218613702656⟩ ⟨⟨2, 1, 3⟩, ⟨7, 1, 8⟩⟩) ⟨⟨0, 1, 1⟩, ⟨7, 1, 8⟩⟩) =
      "a = 1.5" := by
    decide +kernel
  rw [← written]
  exact canonical_text_reads_back .expression "a=01.50" _ (by decide +kernel)

end SableSyntax
