/- SableSyntax/Proofs/Parsing/ParallelReaders
   digest: All readers run in step on texts that differ in their layout, also where they fail. -/

import SableSyntax.Proofs.Parsing.Calls
import SableSyntax.Proofs.Parsing.Parallel
import SableSyntax.Proofs.Parsing.ProgramSoundness
import SableSyntax.Proofs.Syntax.Places

set_option autoImplicit false
set_option relaxedAutoImplicit false

namespace SableSyntax

namespace Correspondence

variable {rel : Correspondence} {α γ : Type} {view : α → γ}

section Expressions

open ExpressionReader (descend layer linkOver_bind withLevels)

/-- Readers of expressions that run in step. A chain goes on from left parts that are the same apart
from their places. -/
structure ParallelReader (rel : Correspondence) (reader : ExpressionReader) : Prop where
  expression : rel.Parallel Expression.unplaced reader.expression reader.expression
  binary : ∀ least, rel.Parallel Expression.unplaced (reader.binary least) (reader.binary least)
  chain : ∀ least left left', left.unplaced = left'.unplaced →
    rel.Parallel Expression.unplaced (reader.chain least left) (reader.chain least left')
  primary : rel.Parallel Expression.unplaced reader.primary reader.primary

variable {inner : Option ExpressionReader} {state state' : ParserState} {token token' : Token}

theorem descend_bind_parallel (below : ∀ reader ∈ inner, rel.ParallelReader reader)
    (related : rel.Related (.ok token) (.ok token')) {go go' : ExpressionReader → Parser α}
    (next : ∀ reader, rel.ParallelReader reader → rel.Parallel view (go reader) (go' reader)) :
    rel.Parallel view (descend inner token >>= go) (descend inner token' >>= go') := by
  cases inner with
  | none => exact Parallel.throw (blames_token related rfl)
  | some reader => exact next reader (below reader rfl)

theorem primaryOver_parallel (below : ∀ reader ∈ inner, rel.ParallelReader reader) :
    rel.Parallel Expression.unplaced (ExpressionReader.primaryOver inner)
      (ExpressionReader.primaryOver inner) := by
  refine fun state state' ahead => peek_bind_inStep ahead fun token token' middle middle' _ h => ?_
  rw [h.kind]
  have text : token'.text = token.text := congrArg Lexeme.text h.toLexeme.symm
  cases kind : token.kind
  case integer | float =>
    refine (advance_inStep h (by simp [kind])).bind fun _ _ _ => ?_
    rw [text]
    split
    · exact .pure rfl
    · exact .throw (blames_token h.related rfl)
  case identifier =>
    refine (advance_inStep h (by simp [kind])).bind fun _ _ _ => .pure ?_
    simp only [Expression.unplaced, text]
  case leftParen =>
    simp only [ExpressionReader.enclosed_bind]
    refine (advance_inStep h (by simp [kind])).bind fun _ _ _ =>
      descend_bind_parallel below h.related fun reader parallel => ?_
    refine parallel.expression.bind fun value value' same => ?_
    refine (expect_parallel (by decide) _).bind fun _ _ _ => .pure ?_
    simp only [Expression.unplaced, same]
  all_goals exact .throw (blames_unexpected h.related _ _) h.ahead

theorem chainOver_parallel (below : ∀ reader ∈ inner, rel.ParallelReader reader)
    (least : Precedence) {left left' : Expression} (same : left.unplaced = left'.unplaced) :
    rel.Parallel Expression.unplaced (ExpressionReader.chainOver inner least left)
      (ExpressionReader.chainOver inner least left') := by
  refine fun state state' ahead => peek_bind_inStep ahead fun token token' middle middle' _ h => ?_
  rw [h.kind]
  cases isRule : token.kind.operatorRule? with
  | none => exact .pure same h.ahead
  | some rule =>
    by_cases binds : least ≤ rule.precedence
    · simp only [binds, ↓reduceIte, Parser.operations_round, linkOver_bind]
      have notEnd : token.kind ≠ .endOfInput := by
        intro atEnd
        simp [atEnd, TokenKind.operatorRule?] at isRule
      refine (advance_inStep h notEnd).bind fun _ _ _ =>
        descend_bind_parallel below h.related fun reader parallel => ?_
      refine (parallel.binary _).bind fun right right' same' => parallel.chain _ _ _ ?_
      simp only [Expression.unplaced, same, same']
    · simp only [binds, ↓reduceIte]
      exact .pure same h.ahead

theorem binaryOver_parallel (below : ∀ reader ∈ inner, rel.ParallelReader reader)
    (least : Precedence) :
    rel.Parallel Expression.unplaced (ExpressionReader.binaryOver inner least)
      (ExpressionReader.binaryOver inner least) :=
  (primaryOver_parallel below).bind fun _ _ => chainOver_parallel below least

theorem assignmentOver_inStep (below : ∀ reader ∈ inner, rel.ParallelReader reader)
    {mark mark' : Token} {more more' : List LexResult} (h : rel.Next token token' state state')
    (notEnd : token.kind ≠ .endOfInput) (notEnd' : mark.kind ≠ .endOfInput)
    (front : state.ahead = .ok token :: .ok mark :: more)
    (front' : state'.ahead = .ok token' :: .ok mark' :: more')
    (related : rel.Related (.ok mark) (.ok mark')) :
    rel.InStep Expression.unplaced (ExpressionReader.assignmentOver inner)
      (ExpressionReader.assignmentOver inner) state state' := by
  have text : token'.text = token.text := congrArg Lexeme.text h.toLexeme.symm
  refine advance_bind_inStep h notEnd fun middle middle' same same' ahead => ?_
  rw [front, List.cons.injEq] at same
  rw [front', List.cons.injEq] at same'
  have marks : rel.Next mark mark' middle middle' :=
    ⟨related, by rw [← same.2]; rfl, by rw [← same'.2]; rfl, ahead⟩
  refine advance_bind_inStep marks notEnd' fun reached reached' _ _ ahead => ?_
  simp only [ExpressionReader.enclosed_bind]
  refine descend_bind_parallel below related (fun reader parallel => ?_) _ _ ahead
  refine parallel.expression.bind fun value value' same => .pure ?_
  simp only [Expression.unplaced, Identifier.unplaced, text, same]

theorem expressionOver_parallel (below : ∀ reader ∈ inner, rel.ParallelReader reader) :
    rel.Parallel Expression.unplaced (ExpressionReader.expressionOver inner)
      (ExpressionReader.expressionOver inner) := by
  refine fun state state' ahead => peek_bind_inStep ahead fun token token' middle middle' _ h => ?_
  rw [h.kind]
  split
  · next name =>
    have notEnd : token.kind ≠ .endOfInput := by simp [name]
    refine peekSecond_bind_inStep h notEnd
      fun second second' reached reached' more more' front front' related h => ?_
    have kind : second'.kind = second.kind := congrArg Lexeme.kind (toLexeme_eq related).symm
    rw [kind]
    split
    · next equal =>
      exact assignmentOver_inStep below h notEnd (by simp [equal]) front front' related
    · exact binaryOver_parallel below _ _ _ h.ahead
  · exact binaryOver_parallel below _ _ _ h.ahead

theorem layer_parallel (below : ∀ reader ∈ inner, rel.ParallelReader reader) :
    rel.ParallelReader (layer inner) :=
  ⟨expressionOver_parallel below, binaryOver_parallel below,
    fun least _ _ => chainOver_parallel below least, primaryOver_parallel below⟩

theorem withLevels_parallel (levels : Nat) : rel.ParallelReader (withLevels levels) := by
  induction levels with
  | zero => exact layer_parallel nofun
  | succ levels ih =>
    refine layer_parallel fun reader member => ?_
    cases member
    exact ih

end Expressions

section Programs

theorem identifier_parallel (construct : Construct) :
    rel.Parallel Identifier.unplaced (Parser.identifier construct)
      (Parser.identifier construct) :=
  (expect_parallel (by decide) _).bind fun token token' same => .pure <| by
    simp only [Identifier.unplaced, congrArg Lexeme.text same]

theorem typeExpr_parallel :
    rel.Parallel TypeExpr.unplaced Parser.typeExpr Parser.typeExpr := by
  have marks : rel.Parallel (List.map Token.toLexeme)
      (Parser.repeatWhile (·.kind == .star) Parser.advance)
      (Parser.repeatWhile (·.kind == .star) Parser.advance) := by
    refine repeatWhile_parallel Parser.pointer_readsAt ?_ ?_ ?_
    · exact fun _ _ mark => by simp [mark.1]
    · exact fun _ _ same => by simp only [congrArg Lexeme.kind same]
    · intro token token' state state' h star
      exact advance_inStep h (by simp_all)
  refine (identifier_parallel _).bind fun base base' named => marks.bind fun _ _ same => .pure ?_
  have name : base.name = base'.name := by simpa [Identifier.unplaced] using named
  have length := congrArg List.length same
  simp only [List.length_map] at length
  simp only [TypeExpr.unplaced, name, length]

theorem parameter_parallel :
    rel.Parallel Parameter.unplaced Parser.parameter Parser.parameter :=
  (identifier_parallel _).bind fun _ _ named => (expect_parallel (by decide) _).bind fun _ _ _ =>
    typeExpr_parallel.bind fun _ _ typed => .pure <| by
      simp only [Parameter.unplaced, named, typed]

theorem parameterList_parallel :
    rel.Parallel (List.map Parameter.unplaced) Parser.parameterList Parser.parameterList := by
  have further : rel.Parallel (List.map Parameter.unplaced)
      (Parser.repeatWhile (·.kind == .comma) (do let _ ← Parser.advance; Parser.parameter))
      (Parser.repeatWhile (·.kind == .comma) (do let _ ← Parser.advance; Parser.parameter)) := by
    refine repeatWhile_parallel Parser.furtherParameter_readsAt ?_ ?_ ?_
    · rintro _ _ ⟨_, _⟩
      simp
    · exact fun _ _ same => by simp only [congrArg Lexeme.kind same]
    · intro token token' state state' h comma
      exact (advance_inStep h (by simp_all)).bind fun _ _ _ => parameter_parallel
  refine fun state state' ahead => peek_bind_inStep ahead fun token token' middle middle' _ h => ?_
  rw [h.kind]
  split
  · exact .pure rfl h.ahead
  · refine (parameter_parallel.bind fun _ _ first => further.bind fun _ _ rest => .pure ?_) _ _
      h.ahead
    simp only [List.map_cons, first, rest]

theorem declaredType_parallel : rel.Parallel (Option.map TypeExpr.unplaced) Parser.declaredType
    Parser.declaredType := by
  refine fun state state' ahead => peek_bind_inStep ahead fun token token' middle middle' _ h => ?_
  rw [h.kind]
  split
  · next colon =>
    exact (advance_inStep h (by simp [colon])).bind fun _ _ _ => typeExpr_parallel.bind
      fun _ _ same => .pure (congrArg some same)
  · exact .pure rfl h.ahead

theorem initializerMark_parallel (name : String) :
    rel.Parallel Token.toLexeme (Parser.initializerMark name) (Parser.initializerMark name) := by
  refine fun state state' ahead => peek_bind_inStep ahead fun token token' middle middle' _ h => ?_
  rw [h.kind]
  cases kind : token.kind
  case equal => exact advance_inStep h (by simp [kind])
  case endOfInput => exact .throw (blames_unexpected h.related _ _) h.ahead
  all_goals exact .throw (blames_token h.related rfl) h.ahead

theorem expression_parallel :
    rel.Parallel Expression.unplaced Parser.expression Parser.expression :=
  (withLevels_parallel _).expression

theorem variableDeclaration_parallel : rel.Parallel Statement.unplaced Parser.variableDeclaration
    Parser.variableDeclaration := by
  refine (expect_parallel (by decide) _).bind fun _ _ _ =>
    (identifier_parallel _).bind fun name name' named => declaredType_parallel.bind
      fun _ _ typed => ?_
  have text : name'.name = name.name := by simpa [Identifier.unplaced] using named.symm
  rw [text]
  refine (initializerMark_parallel _).bind fun _ _ _ => expression_parallel.bind
    fun _ _ valued => (expect_parallel (by decide) _).bind fun _ _ _ => .pure ?_
  simp only [Statement.unplaced, named, typed, valued]

theorem expressionStatement_parallel : rel.Parallel Statement.unplaced Parser.expressionStatement
    Parser.expressionStatement :=
  expression_parallel.bind fun _ _ same => (expect_parallel (by decide) _).bind fun _ _ _ =>
    .pure <| by simp only [Statement.unplaced, same]

theorem statement_parallel :
    rel.Parallel Statement.unplaced Parser.statement Parser.statement := by
  refine fun state state' ahead => peek_bind_inStep ahead fun token token' middle middle' _ h => ?_
  rw [h.kind]
  split
  · exact variableDeclaration_parallel _ _ h.ahead
  · exact expressionStatement_parallel _ _ h.ahead

theorem block_parallel : rel.Parallel Block.unplaced Parser.block Parser.block := by
  have statements : rel.Parallel (List.map Statement.unplaced)
      (Parser.repeatWhile (!Token.closesBlock ·) Parser.statement)
      (Parser.repeatWhile (!Token.closesBlock ·) Parser.statement) := by
    refine repeatWhile_parallel (fun state _ _ _ => Parser.statement_reads.readsAt state) ?_ ?_ ?_
    · rintro _ _ (_ | _) <;> simp
    · exact fun _ _ same => by simp only [Token.closesBlock, congrArg Lexeme.kind same]
    · exact fun _ _ state state' h _ => statement_parallel state state' h.ahead
  exact (expect_parallel (by decide) _).bind fun _ _ _ => record_bind_parallel <|
    statements.bind fun _ _ same => (expect_parallel (by decide) _).bind fun _ _ _ =>
      .pure <| by simp only [Block.unplaced, same]

theorem functionBody_parallel :
    rel.Parallel (fun body => body.1.map Block.unplaced) Parser.functionBody
      Parser.functionBody := by
  refine fun state state' ahead => peek_bind_inStep ahead fun token token' middle middle' _ h => ?_
  rw [h.kind]
  cases kind : token.kind
  case leftBrace =>
    refine (block_parallel.bind fun _ _ same => .pure ?_) _ _ h.ahead
    simp only [Option.map_some, same]
  case semicolon => exact (advance_inStep h (by simp [kind])).bind fun _ _ _ => .pure rfl
  all_goals exact .throw (blames_unexpected h.related _ _) h.ahead

theorem function_parallel : rel.Parallel Function.unplaced Parser.function Parser.function := by
  refine (expect_parallel (by decide) _).bind fun _ _ _ => (identifier_parallel _).bind
    fun name name' named => ?_
  exact record_bind_parallel <| (expect_parallel (by decide) _).bind fun _ _ _ =>
    parameterList_parallel.bind fun _ _ listed => (expect_parallel (by decide) _).bind
      fun _ _ _ => (expect_parallel (by decide) _).bind fun _ _ _ => typeExpr_parallel.bind
        fun _ _ typed => functionBody_parallel.bind fun _ _ bodied => .pure <| by
          simp only [Function.unplaced, named, listed, typed, bodied]

theorem functions_parallel : rel.Parallel (List.map Function.unplaced)
    (Parser.repeatWhile (·.kind == .func) Parser.function)
    (Parser.repeatWhile (·.kind == .func) Parser.function) := by
  refine repeatWhile_parallel (fun state _ _ _ => Parser.function_reads.readsAt state) ?_ ?_ ?_
  · rintro _ _ ⟨_⟩
    simp
  · exact fun _ _ same => by simp only [congrArg Lexeme.kind same]
  · exact fun _ _ state state' h _ => function_parallel state state' h.ahead

theorem upToEnd_parallel {α γ : Type} {view : α → γ} {go go' : Parser α}
    (next : rel.Parallel view go go') :
    rel.Parallel view
      (do
        let next ← Parser.peek
        if next.kind = .endOfInput then go else throw ⟨.trailingInput next.toLexeme, next.span⟩)
      (do
        let next ← Parser.peek
        if next.kind = .endOfInput then go'
        else throw ⟨.trailingInput next.toLexeme, next.span⟩) := by
  refine fun state state' ahead => peek_bind_inStep ahead fun token token' _ _ _ h => ?_
  rw [h.kind]
  split
  · exact next _ _ h.ahead
  · exact .throw (blames_token h.related (congrArg Fault.trailingInput h.toLexeme)) h.ahead

theorem program_parallel : rel.Parallel Program.unplaced Parser.program Parser.program := by
  refine fun state state' ahead => peek_bind_inStep ahead fun first first' _ _ _ h => ?_
  refine (functions_parallel.bind fun values values' same => ?_) _ _ h.ahead
  refine upToEnd_parallel (record_bind_parallel ?_)
  simp only [Parser.operations_programSpan, pure_bind]
  refine .pure ?_
  simp only [Program.unplaced, same]

end Programs

end Correspondence

namespace Parser.Call

def unplaced : (call : Call) → call.Node → call.Node
  | .program => Program.unplaced
  | .function => Function.unplaced
  | .parameterList => List.map Parameter.unplaced
  | .parameter => Parameter.unplaced
  | .block => Block.unplaced
  | .statement | .variableDeclaration | .expressionStatement => Statement.unplaced
  | .typeExpr => TypeExpr.unplaced
  | .expression | .binary _ | .primary => Expression.unplaced

theorem parallel (rel : Correspondence) (call : Call) :
    rel.Parallel call.unplaced call.reader call.reader := by
  cases call with
  | program => exact Correspondence.program_parallel
  | function => exact Correspondence.function_parallel
  | parameterList => exact Correspondence.parameterList_parallel
  | parameter => exact Correspondence.parameter_parallel
  | block => exact Correspondence.block_parallel
  | statement => exact Correspondence.statement_parallel
  | variableDeclaration => exact Correspondence.variableDeclaration_parallel
  | expressionStatement => exact Correspondence.expressionStatement_parallel
  | typeExpr => exact Correspondence.typeExpr_parallel
  | expression => exact Correspondence.expression_parallel
  | binary least => exact (Correspondence.withLevels_parallel _).binary least
  | primary => exact (Correspondence.withLevels_parallel _).primary

end Parser.Call

theorem Correspondence.ahead_after (rel : Correspondence) (calls : List Parser.Call)
    {state state' : ParserState} (ahead : rel.Ahead state state') :
    rel.Ahead (Parser.after calls state) (Parser.after calls state') := by
  induction calls generalizing state state' with
  | nil => exact ahead
  | cons call calls ih => exact ih (call.parallel rel state state' ahead).ahead_step

end SableSyntax
