/- SableSyntax/Proofs/Parsing/ProgramSoundness
   digest: The readers of types, statements, functions and programs read by the grammar. -/

import SableSyntax.Parsing.Program
import SableSyntax.Proofs.Parsing.ExpressionSoundness
import SableSyntax.Proofs.Parsing.Reads

set_option autoImplicit false
set_option relaxedAutoImplicit false

namespace SableSyntax

open Grammar

namespace Parser

theorem identifier_reads (construct : Construct) : (identifier construct).Reads NameRule :=
  ((expect_reads (by decide) construct).bind fun _ => .pure _).mono fun _ _ => nameRule_iff.2

private theorem mark_ne_nil {kind : TokenKind} (used : List Token) (token : Token)
    (mark : Mark kind used token) : used ≠ [] := by
  simp [mark.1]

theorem pointer_readsAt (state : ParserState) (token : Token)
    (next : state.ahead.head? = some (.ok token)) (same : token.kind == .star) :
    advance.ReadsAt state (Mark .star) :=
  advance_readsAt next (by simpa using same) (by decide)

theorem typeExpr_reads : typeExpr.Reads TypeRule := by
  have marks : (repeatWhile (·.kind == .star) advance).Reads (Many (Mark .star)) :=
    repeatWhile_reads pointer_readsAt mark_ne_nil
  exact ((identifier_reads _).bind fun _ => marks.bind fun _ => .pure _).mono
    fun _ _ => typeRule_iff.2

theorem parameter_reads : parameter.Reads ParameterRule :=
  ((identifier_reads _).bind fun _ => (expect_reads (by decide) _).bind fun _ =>
    typeExpr_reads.bind fun _ => .pure _).mono fun _ _ => parameterRule_iff.2

theorem furtherParameter_readsAt (state : ParserState) (token : Token)
    (next : state.ahead.head? = some (.ok token)) (same : token.kind == .comma) :
    ReadsAt (do let _ ← advance; parameter) state FurtherParameter :=
  ((advance_readsAt next (by simpa using same) (by decide)).bind fun _ => parameter_reads).mono
    fun _ _ => furtherParameter_iff.2

theorem parameterList_reads : parameterList.Reads ParametersRule := by
  have further : (repeatWhile (·.kind == .comma) (do let _ ← advance; parameter)).Reads
      (Many FurtherParameter) := by
    apply repeatWhile_reads furtherParameter_readsAt
    intro _ _ derived
    rcases derived with ⟨mark, derived⟩
    simp
  refine .peek (.of_rule .none) fun token state next => ?_
  by_cases close : token.kind = .rightParen
  · simp only [close, ↓reduceIte]
    exact ((Reads.pure []).readsAt state).mono fun _ _ h => parametersRule_iff.2 (.inl h)
  · simp only [close, ↓reduceIte]
    exact ((parameter_reads.readsAt state).bind fun _ => further.bind fun _ => .pure _).mono
      fun _ _ h => parametersRule_iff.2 (.inr h)

theorem declaredType_reads : declaredType.Reads DeclaredTypeRule := by
  refine .peek (.of_rule .absent) fun token state next => ?_
  by_cases colon : token.kind = .colon
  · simp only [colon, ↓reduceIte]
    refine ((advance_readsAt next colon (by decide)).bind fun _ => typeExpr_reads.bind fun _ =>
      .pure _).mono ?_
    intro _ _ h
    rcases h with ⟨_, mark, _, rfl, same, _, type, _, rfl, derived, rfl, rfl⟩
    exact .present (by simpa using ascription_iff.2 ⟨_, _, _, rfl, same, derived⟩)
  · simp only [colon, ↓reduceIte]
    apply ((Reads.pure none).readsAt state).mono
    intro _ _ h
    rcases h with ⟨rfl, rfl⟩
    exact .absent

theorem initializerMark_reads (name : String) : (initializerMark name).Reads (Mark .equal) := by
  have starts : Viable (Mark .equal) [] := .mark (by decide)
  refine .peek starts fun token state next => ?_
  split
  · exact advance_readsAt next ‹_› (by decide)
  · exact .throw next (.unexpected _ _ _) starts
  · refine .throw next (.token rfl ?_) starts
    simp_all [Fault.IsUnexpectedEnd]

theorem expression_reads : expression.Reads (Readable maxNesting .assignment) where
  readsAt := expression_runs
  starts := .sample .identifier (by decide) (.of_rule ((Readable.name rfl).loosen (by decide)))

/-- The rules for what contains expressions, the numbers of which are in range and the reading of
which stays within the bound on nesting. -/
abbrev Bounded {α : Type} (rule : (List Token → Expression → Prop) → List Token → α → Prop) :
    List Token → α → Prop :=
  rule (Readable maxNesting .assignment)

theorem variableDeclaration_reads : variableDeclaration.Reads (Bounded StatementRule) :=
  ((expect_reads (by decide) _).bind fun _ => (identifier_reads _).bind fun name =>
    declaredType_reads.bind fun _ => (initializerMark_reads name.name).bind fun _ =>
      expression_reads.bind fun _ => (expect_reads (by decide) _).bind fun _ => .pure _).mono
    fun _ _ h => statementRule_iff.2 (.inl h)

theorem expressionStatement_reads : expressionStatement.Reads (Bounded StatementRule) :=
  (expression_reads.bind fun _ => (expect_reads (by decide) _).bind fun _ => .pure _).mono
    fun _ _ h => statementRule_iff.2 (.inr h)

theorem statement_reads : statement.Reads (Bounded StatementRule) := by
  refine .peek expressionStatement_reads.starts fun token state _ => ?_
  split
  · exact variableDeclaration_reads.readsAt state
  · exact expressionStatement_reads.readsAt state

theorem block_reads : block.Reads (Bounded BlockRule) := by
  have statements : (repeatWhile (!Token.closesBlock ·) statement).Reads
      (Many (Bounded StatementRule)) := by
    apply repeatWhile_reads (fun state _ _ _ => statement_reads.readsAt state)
    rintro _ _ (_ | _) <;> simp
  exact ((expect_reads (by decide) _).bind fun _ => .record (statements.bind fun _ =>
    (expect_reads (by decide) _).bind fun _ => .pure _)).mono fun _ _ => blockRule_iff.2

theorem functionBody_reads : functionBody.Reads (Bounded BodyRule) := by
  have starts : Viable (Bounded BodyRule) [] :=
    .sample .semicolon (by decide) (.of_rule (.semicolon rfl))
  refine .peek starts fun token state next => ?_
  split
  · refine ((block_reads.readsAt state).bind fun _ => .pure _).mono ?_
    intro _ _ h
    rcases h with ⟨_, body, _, rfl, derived, rfl, rfl⟩
    simpa using BodyRule.block derived
  · refine ((advance_readsAt next ‹_› (by decide)).bind fun _ => .pure _).mono ?_
    intro _ _ h
    rcases h with ⟨_, close, _, rfl, ⟨rfl, mark⟩, rfl, rfl⟩
    exact .semicolon mark
  · exact .throw next (.unexpected _ _ _) starts

theorem function_reads : function.Reads (Bounded FunctionRule) :=
  ((expect_reads (by decide) _).bind fun _ => (identifier_reads _).bind fun _ => .record
    ((expect_reads (by decide) _).bind fun _ => parameterList_reads.bind fun _ =>
      (expect_reads (by decide) _).bind fun _ => (expect_reads (by decide) _).bind fun _ =>
        typeExpr_reads.bind fun _ => functionBody_reads.bind fun _ => .pure _)).mono
    fun _ _ => functionRule_iff.2

abbrev ProgramUpTo (stop : Token) : List Token → Program → Prop :=
  ProgramRule (Readable maxNesting .assignment) stop

theorem getLast?_span_getD {rule : List Token → Function → Prop} {tokens : List Token}
    {functions : List Function} (derived : Many rule tokens functions) (stop : Token) :
    (functions.getLast?.map Function.span).getD (.point (tokens.headD stop).span.start) =
      (functions.getLast?.map Function.span).getD (.point stop.span.start) := by
  cases derived with
  | nil => rfl
  | cons => simp [List.getLast?_cons]

theorem program_runs (state : ParserState) :
    program.Runs state
      (fun used value reached => ∃ stop, stop.kind = .endOfInput ∧ reached.ahead = [.ok stop] ∧
        ProgramUpTo stop used value)
      (Viable (ProgramUpTo (.sample .endOfInput))) := by
  have functions : (repeatWhile (·.kind == .func) function).Reads
      (Many (Bounded FunctionRule)) := by
    apply repeatWhile_reads (fun state _ _ _ => function_reads.readsAt state)
    intro _ _ h
    cases h
    simp
  apply (peek_runs state).bind
  · intro _ h
    subst h
    exact .of_rule (.intro .nil)
  intro _ first middle _ h
  rcases h with ⟨rfl, -, hfirst⟩
  apply Runs.bind (functions.readsAt middle)
  · intro used h
    rcases h with ⟨more, values, spelled, derived⟩
    exact ⟨more, _, spelled, .intro derived⟩
  intro used values behind took derived
  have whole : Viable (ProgramUpTo (.sample .endOfInput)) ([] ++ (used ++ [])) := by
    simpa using Viable.of_rule (.intro derived)
  apply (peek_runs behind).bind
  · intro _ h
    subst h
    exact whole
  intro _ next last looked h
  rcases h with ⟨rfl, -, hnext⟩
  by_cases atEnd : next.kind = .endOfInput
  · simp only [atEnd, ↓reduceIte]
    apply (record_runs _ last).bind (fun _ => False.elim)
    intro _ _ logged tookNone h
    subst h
    -- The program starts at its first token, or at the end where it has none.
    have start : first = used.headD next := by
      rw [took.ahead_eq, ← looked.ahead_eq_of_nil] at hfirst
      cases used with
      | nil => simpa [hnext] using hfirst.symm
      | cons token used => simpa using hfirst.symm
    rw [operations_programSpan, pure_bind]
    refine .pure ⟨next, atEnd, ?_, ?_⟩
    · rw [tookNone.ahead_eq_of_nil, ParserState.ahead_eq_of_end hnext atEnd]
    · have read : ProgramUpTo next used _ := .intro derived
      rw [← getLast?_span_getD derived next, ← start] at read
      simpa using read
  · simp only [atEnd, ↓reduceIte]
    refine .throw hnext (.token rfl ?_) whole
    simp [Fault.IsUnexpectedEnd, atEnd]

end Parser

end SableSyntax
