/- SableSyntax/Proofs/Parsing/ProgramCompleteness
   digest: The readers of types, statements, functions and programs find what rules derive. -/

import SableSyntax.Proofs.Parsing.ExpressionCompleteness
import SableSyntax.Proofs.Parsing.ProgramSoundness

set_option autoImplicit false
set_option relaxedAutoImplicit false

namespace SableSyntax

open Grammar

namespace Grammar

variable {α : Type}

theorem Then.kind_headD {kind : TokenKind} {second : Token → List Token → α → Prop}
    {tokens : List Token} {value : α} (h : Then (Mark kind) second tokens value) (token : Token) :
    (tokens.headD token).kind = kind := by
  obtain ⟨_, first, behind, rfl, ⟨rfl, same⟩, -⟩ := h
  exact same

theorem ExpressionRule.starts {level : Precedence} {tokens : List Token} {value : Expression}
    (h : ExpressionRule level tokens value) : ∃ first rest, tokens = first :: rest ∧
      first.kind ∈ [TokenKind.integer, .float, .identifier, .leftParen] := by
  induction h with
  | integer kind | float kind | identifier kind | parenthesized kind | assignment kind =>
    exact ⟨_, _, rfl, by simp [kind]⟩
  | product _ ih | sum _ ih | chain _ ih => exact ih
  | link _ _ _ ih _ =>
    obtain ⟨first, rest, rfl, kind⟩ := ih
    exact ⟨first, _, rfl, kind⟩

end Grammar

def Token.EndsType (token : Token) : Prop := token.kind ≠ .star

namespace Parser

theorem identifier_completes (construct : Construct) :
    (identifier construct).Completes NameRule fun _ => True :=
  ((expect_completes (by decide) construct).bind_of_true fun _ => .pure _).mono
    fun _ _ => nameRule_iff.1

theorem typeExpr_completes : typeExpr.Completes TypeRule Token.EndsType := by
  have marks : (repeatWhile (·.kind == .star) advance).Completes (Many (Mark .star))
      Token.EndsType := by
    intro tokens values next more derived follows
    refine repeatWhile_completes pointer_readsAt ?_ (advance_completes (by decide)) tokens values
      next more derived ⟨trivial, ?_⟩
    · intro _ token h
      rcases h with ⟨rfl, same⟩
      exact ⟨token, [], rfl, by simp [same], trivial⟩
    · simpa [Token.EndsType] using follows
  refine ((identifier_completes _).bind_of_true fun _ => marks.bind (fun _ => .pure _) ?_).mono
    fun _ _ => typeRule_iff.1
  intro _ _ _ token h follows
  rcases h with ⟨rfl, -⟩
  exact follows

theorem parameter_completes : parameter.Completes ParameterRule Token.EndsType := by
  refine ((identifier_completes _).bind_of_true fun _ =>
    (expect_completes (by decide) _).bind_of_true fun _ =>
      typeExpr_completes.bind (fun _ => .pure _) ?_).mono fun _ _ => parameterRule_iff.1
  intro _ _ _ token h follows
  rcases h with ⟨rfl, -⟩
  exact follows

theorem furtherParameters_complete :
    (repeatWhile (·.kind == .comma) (do let _ ← advance; parameter)).Completes
      (Many FurtherParameter) fun next => next.kind = .rightParen := by
  have item : Completes (do let _ ← advance; parameter) FurtherParameter Token.EndsType :=
    ((advance_completes (by decide)).bind_of_true fun _ => parameter_completes).mono
      fun _ _ => furtherParameter_iff.1
  intro tokens values next more derived close
  refine repeatWhile_completes furtherParameter_readsAt ?_ item tokens values next more derived
    ⟨?_, ?_⟩
  · intro _ _ h
    rcases h with ⟨comma, derived⟩
    exact ⟨_, _, rfl, by simp [comma], by simp [Token.EndsType, comma]⟩
  · simp [Token.EndsType, close]
  · simp [close]

theorem parameterList_completes :
    parameterList.Completes ParametersRule fun next => next.kind = .rightParen := by
  have listed : Completes (do
      let first ← parameter
      let rest ← repeatWhile (·.kind == .comma) do
        let _ ← advance
        parameter
      return first :: rest)
      (Then ParameterRule fun first => Then (Many FurtherParameter) fun rest =>
        Silent (first :: rest)) fun next => next.kind = .rightParen := by
    refine parameter_completes.bind
      (fun _ => furtherParameters_complete.bind (fun _ => .pure _) ?_) ?_
    · intro _ _ _ token h close
      rcases h with ⟨rfl, -⟩
      exact close
    · intro _ _ _ token h close
      rcases h with ⟨_, _, _, rfl, further, rfl, -⟩
      cases further with
      | nil => simp [Token.EndsType, close]
      | cons head =>
        obtain ⟨comma, -⟩ := head
        simp [Token.EndsType, comma]
  refine .peek fun tokens parameters next more derived close => ?_
  rcases parametersRule_iff.1 derived with ⟨rfl, rfl⟩ | derived
  · simp only [List.headD_nil, close, ↓reduceIte]
    exact .pure []
  · obtain ⟨_, _, behind, rfl, ⟨named, _⟩, -⟩ := id derived
    simp only [List.cons_append, List.headD_cons, named, reduceCtorEq, ↓reduceIte]
    exact listed _ _ next more derived close

theorem declaredType_completes :
    declaredType.Completes DeclaredTypeRule fun next => next.kind = .equal := by
  refine .peek fun tokens type next more derived equal => ?_
  cases derived with
  | absent =>
    simp only [List.headD_nil, equal, reduceCtorEq, ↓reduceIte]
    exact .pure none
  | @present _ type ascribed =>
    obtain ⟨colon, derived⟩ := ascribed
    simp only [List.headD_cons, colon, ↓reduceIte]
    have ends : next.EndsType := by simp [Token.EndsType, equal]
    exact .bind (advance_yields (by simp [colon]))
      (.bind (typeExpr_completes _ type next more derived ends) (.pure _))

theorem initializerMark_completes (name : String) :
    (initializerMark name).Completes (Mark .equal) fun _ => True := by
  refine .peek ?_
  intro _ mark next more h _
  rcases h with ⟨rfl, equal⟩
  simp only [List.headD_cons, equal]
  exact advance_yields (by simp [equal])

theorem endsExpression_of_semicolon {token : Token} (same : token.kind = .semicolon) :
    token.EndsExpression := by
  simp [Token.EndsExpression, same, TokenKind.operatorRule?]

theorem variableDeclaration_completes : variableDeclaration.Completes
    (Then (Mark .var) fun keyword => Then NameRule fun name => Then DeclaredTypeRule fun type =>
      Then (Mark .equal) fun _ => Then (Readable maxNesting .assignment) fun value =>
        Then (Mark .semicolon) fun close =>
          Silent (.variable name type value (keyword.span.through close.span))) fun _ => True := by
  refine (expect_completes (by decide) _).bind_of_true fun _ =>
    (identifier_completes _).bind_of_true fun name =>
      declaredType_completes.bind (fun _ => (initializerMark_completes name.name).bind_of_true
        fun _ => expression_completes.bind
          (fun _ => (expect_completes (by decide) _).bind_of_true fun _ => .pure _) ?_) ?_
  · exact fun _ _ _ token derived _ => endsExpression_of_semicolon (derived.kind_headD token)
  · exact fun _ _ _ token derived _ => derived.kind_headD token

theorem expressionStatement_completes : expressionStatement.Completes
    (Then (Readable maxNesting .assignment) fun value => Then (Mark .semicolon) fun close =>
      Silent (.expression value (value.span.through close.span))) fun _ => True := by
  refine expression_completes.bind
    (fun _ => (expect_completes (by decide) _).bind_of_true fun _ => .pure _) ?_
  exact fun _ _ _ token derived _ => endsExpression_of_semicolon (derived.kind_headD token)

theorem statement_completes : statement.Completes (Bounded StatementRule) fun _ => True := by
  refine .peek fun tokens value next more derived _ => ?_
  rcases statementRule_iff.1 derived with derived | derived
  · simp only [derived.kind_headD, ↓reduceIte]
    exact variableDeclaration_completes _ _ next more derived trivial
  · have other : (tokens.headD next).kind ≠ .var := by
      obtain ⟨_, _, _, rfl, readable, -⟩ := derived
      obtain ⟨first, rest, rfl, kind⟩ := readable.derived.starts
      intro (var : first.kind = .var)
      simp [var] at kind
    simp only [other, ↓reduceIte]
    exact expressionStatement_completes _ _ next more derived trivial

theorem block_completes : block.Completes (Bounded BlockRule) fun _ => True := by
  have statements : (repeatWhile (!Token.closesBlock ·) statement).Completes
      (Many (Bounded StatementRule)) fun next => next.kind = .rightBrace := by
    intro tokens values next more derived close
    refine repeatWhile_completes (fun state _ _ _ => statement_reads.readsAt state) ?_
      statement_completes tokens values next more derived
      ⟨trivial, by simp [Token.closesBlock, close]⟩
    intro _ _ h
    rcases h with ⟨var⟩ | ⟨readable⟩
    · exact ⟨_, _, rfl, by simp [Token.closesBlock, var], trivial⟩
    · obtain ⟨first, rest, rfl, kind⟩ := readable.derived.starts
      refine ⟨_, _, rfl, ?_, trivial⟩
      by_cases brace : first.kind = .rightBrace
      · simp [brace] at kind
      · by_cases atEnd : first.kind = .endOfInput
        · simp [atEnd] at kind
        · simp [Token.closesBlock, brace, atEnd]
  exact ((expect_completes (by decide) _).bind_of_true fun _ => .record
    (statements.bind (fun _ => (expect_completes (by decide) _).bind_of_true fun _ => .pure _)
      fun _ _ _ token derived _ => derived.kind_headD token)).mono fun _ _ => blockRule_iff.1

theorem functionBody_completes : functionBody.Completes (Bounded BodyRule) fun _ => True := by
  refine .peek fun tokens value next more derived _ => ?_
  cases derived with
  | block derived =>
    simp only [(blockRule_iff.1 derived).kind_headD]
    exact .bind (block_completes _ _ next more derived trivial) (.pure _)
  | semicolon mark =>
    simp only [List.headD_cons, mark]
    exact .bind (advance_yields (by simp [mark])) (.pure _)

theorem function_completes : function.Completes (Bounded FunctionRule) fun _ => True := by
  refine ((expect_completes (by decide) _).bind_of_true fun _ =>
    (identifier_completes _).bind_of_true fun _ => .record
      ((expect_completes (by decide) _).bind_of_true fun _ => parameterList_completes.bind
        (fun _ => (expect_completes (by decide) _).bind_of_true fun _ =>
          (expect_completes (by decide) _).bind_of_true fun _ => typeExpr_completes.bind
            (fun _ => functionBody_completes.bind_of_true fun _ => .pure _) ?_) ?_)).mono
    fun _ _ => functionRule_iff.1
  · intro _ _ _ token h _
    rcases h with ⟨_, _, _, rfl, derived, -⟩
    cases derived with
    | block derived =>
      obtain ⟨left, -, -⟩ := derived
      simp [Token.EndsType, left]
    | semicolon mark => simp [Token.EndsType, mark]
  · exact fun _ _ _ token derived _ => derived.kind_headD token

theorem program_yields {tokens : List Token} {value : Program} {stop : Token}
    (derived : ProgramUpTo stop tokens value) (atEnd : stop.kind = .endOfInput) :
    program.Yields (tokens.map .ok ++ [.ok stop]) value [.ok stop] := by
  cases derived with
  | @intro functions derived =>
    have found : (repeatWhile (·.kind == .func) function).Yields (tokens.map .ok ++ [.ok stop])
        functions [.ok stop] := by
      refine repeatWhile_completes (fun state _ _ _ => function_reads.readsAt state) ?_
        function_completes tokens functions stop [] derived ⟨trivial, by simp [atEnd]⟩
      intro _ _ h
      rcases h with ⟨func⟩
      exact ⟨_, _, rfl, by simp [func], trivial⟩
    have first : peek.Yields (tokens.map .ok ++ [.ok stop]) (tokens.headD stop)
        (tokens.map .ok ++ [.ok stop]) := by
      cases tokens <;> exact peek_yields
    refine .bind first (.bind found (.bind peek_yields ?_))
    simp only [atEnd, ↓reduceIte]
    refine .bind (record_yields _) ?_
    rw [operations_programSpan, pure_bind]
    exact getLast?_span_getD derived stop ▸ .pure _

end Parser

end SableSyntax
