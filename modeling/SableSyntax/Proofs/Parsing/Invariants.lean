/- SableSyntax/Proofs/Parsing/Invariants
   digest: What the handling of single tokens keeps to is kept to by every reader. -/

import SableSyntax.Parsing.Program

set_option autoImplicit false
set_option relaxedAutoImplicit false

namespace SableSyntax

/-- A property of states that looking at tokens and using them keep to, whether they succeed or
fail. -/
structure Steady (invariant : ParserState → Prop) : Prop where
  peek : Parser.peek.Preserves invariant
  peekSecond : Parser.peekSecond.Preserves invariant
  advance : Parser.advance.Preserves invariant

structure Stable (invariant : ParserState → Prop) : Prop extends Steady invariant where
  record : ∀ event, (Parser.record event).Preserves invariant

open SableSyntax.Parser (Preserves)

namespace Steady

variable {invariant : ParserState → Prop}

/-- A property is steady if it is kept where the cursor moves on over a fault or a token, where a
token taken off the text is buffered behind the others, and where the first of them is used. -/
theorem of_steps
    (moved : ∀ {state : ParserState} {error cursor}, invariant state →
      state.cursor.next = .error error cursor → invariant { state with cursor })
    (taken : ∀ {state : ParserState} {token cursor}, invariant state →
      state.cursor.next = .ok token cursor → invariant { state with cursor })
    (buffered : ∀ {state : ParserState} {token cursor}, invariant state →
      state.cursor.next = .ok token cursor →
        invariant { state with lookahead := state.lookahead ++ [token], cursor })
    (unbuffered : ∀ {state : ParserState} {token rest}, invariant state →
      state.lookahead = token :: rest → invariant { state with lookahead := rest }) :
    Steady invariant := by
  have looks : Parser.peek.Preserves invariant := by
    intro state h
    simp only [Parser.step, Parser.peek]
    cases ahead : state.lookahead with
    | cons token rest => exact h
    | nil =>
      cases next : state.cursor.next with
      | ok token cursor =>
        simp only [Parser.draw, next]
        simpa [ahead] using buffered h next
      | error error cursor =>
        simp only [Parser.draw, next]
        exact moved h next
  refine ⟨looks, ?_, ?_⟩
  · intro state h
    have looked := looks state h
    simp only [Parser.step, Parser.peekSecond, bind, EStateM.bind] at looked ⊢
    cases hpeek : Parser.peek state with
    | error error middle => simpa only [hpeek] using looked
    | ok first middle =>
      have head := Parser.head?_lookahead_of_peek hpeek
      simp only [hpeek] at looked ⊢
      -- The first token is buffered by now, so that a second one is found or put behind it.
      rcases ahead : middle.lookahead with _ | ⟨only, _ | ⟨second, more⟩⟩
      · simp [ahead] at head
      · obtain rfl : only = first := by simpa [ahead] using head
        cases next : middle.cursor.next with
        | ok token cursor =>
          simp only [Parser.draw, next]
          simpa [ahead] using buffered looked next
        | error error cursor =>
          simp only [Parser.draw, next]
          exact moved looked next
      · exact looked
  · intro state h
    simp only [Parser.step, Parser.advance]
    cases ahead : state.lookahead with
    | cons token rest => exact unbuffered h ahead
    | nil =>
      cases next : state.cursor.next with
      | ok token cursor =>
        simp only [Parser.draw, next]
        simpa [ahead] using taken h next
      | error error cursor =>
        simp only [Parser.draw, next]
        exact moved h next

theorem expect (steady : Steady invariant) (kind : TokenKind) (construct : Construct) :
    (Parser.expect kind construct).Preserves invariant := by
  refine steady.peek.bind fun token => ?_
  split
  · exact steady.advance
  · exact .throw _

section Expressions

structure PreservedBy (invariant : ParserState → Prop) (reader : ExpressionReader) : Prop where
  expression : reader.expression.Preserves invariant
  binary : ∀ least, (reader.binary least).Preserves invariant
  chain : ∀ least left, (reader.chain least left).Preserves invariant
  primary : reader.primary.Preserves invariant

open ExpressionReader (descend enclosed_bind layer linkOver_bind withLevels)

variable {inner : Option ExpressionReader}

theorem descend_bind {α : Type} {opening : Token} {go : ExpressionReader → Parser α}
    (deeper : ∀ reader ∈ inner, (go reader).Preserves invariant) :
    (descend inner opening >>= go).Preserves invariant := by
  cases inner with
  | none => exact fun _ => id
  | some reader => exact deeper reader rfl

theorem layer (steady : Steady invariant)
    (below : ∀ reader ∈ inner, PreservedBy invariant reader) :
    PreservedBy invariant (layer inner) := by
  have chain (least : Precedence) (left : Expression) :
      (ExpressionReader.chainOver inner least left).Preserves invariant := by
    refine steady.peek.bind fun token => ?_
    split
    · exact .pure _
    · split
      · rw [Parser.operations_round, linkOver_bind]
        exact steady.advance.bind fun _ => descend_bind fun reader member =>
          ((below reader member).binary _).bind fun _ => (below reader member).chain _ _
      · exact .pure _
  have primary : (ExpressionReader.primaryOver inner).Preserves invariant := by
    refine steady.peek.bind fun token => ?_
    split
    · refine steady.advance.bind fun _ => ?_
      split
      · exact .pure _
      · exact .throw _
    · refine steady.advance.bind fun _ => ?_
      split
      · exact .pure _
      · exact .throw _
    · exact steady.advance.bind fun _ => .pure _
    · refine steady.advance.bind fun _ => ?_
      rw [enclosed_bind]
      exact descend_bind fun reader member => (below reader member).expression.bind fun _ =>
        (steady.expect _ _).bind fun _ => .pure _
    · exact .throw _
  have binary (least : Precedence) :
      (ExpressionReader.binaryOver inner least).Preserves invariant :=
    primary.bind fun left => chain least left
  have assignment : (ExpressionReader.assignmentOver inner).Preserves invariant := by
    refine steady.advance.bind fun _ => steady.advance.bind fun _ => ?_
    rw [enclosed_bind]
    exact descend_bind fun reader member => (below reader member).expression.bind fun _ => .pure _
  refine ⟨?_, binary, chain, primary⟩
  refine steady.peek.bind fun token => ?_
  split
  · refine steady.peekSecond.bind fun second => ?_
    split
    · exact assignment
    · exact binary _
  · exact binary _

theorem withLevels (steady : Steady invariant) (levels : Nat) :
    PreservedBy invariant (withLevels levels) := by
  induction levels with
  | zero => exact steady.layer nofun
  | succ levels ih =>
    refine steady.layer fun reader member => ?_
    cases member
    exact ih

end Expressions

section Programs

variable (steady : Steady invariant)

include steady

theorem identifier (construct : Construct) : (Parser.identifier construct).Preserves invariant :=
  (steady.expect _ _).bind fun _ => .pure _

theorem typeExpr : Parser.typeExpr.Preserves invariant :=
  (steady.identifier _).bind fun _ => (Preserves.repeatWhile steady.peek steady.advance).bind
    fun _ => .pure _

theorem parameter : Parser.parameter.Preserves invariant :=
  (steady.identifier _).bind fun _ => (steady.expect _ _).bind fun _ => steady.typeExpr.bind
    fun _ => .pure _

theorem parameterList : Parser.parameterList.Preserves invariant := by
  refine steady.peek.bind fun token => ?_
  split
  · exact .pure _
  · have further := steady.advance.bind fun _ => steady.parameter
    exact steady.parameter.bind fun _ => (Preserves.repeatWhile steady.peek further).bind
      fun _ => .pure _

theorem declaredType : Parser.declaredType.Preserves invariant := by
  refine steady.peek.bind fun token => ?_
  split
  · exact steady.advance.bind fun _ => steady.typeExpr.bind fun _ => .pure _
  · exact .pure _

theorem initializerMark (name : String) : (Parser.initializerMark name).Preserves invariant := by
  refine steady.peek.bind fun token => ?_
  split
  · exact steady.advance
  · exact .throw _
  · exact .throw _

theorem expression : Parser.expression.Preserves invariant := (steady.withLevels _).expression

theorem variableDeclaration : Parser.variableDeclaration.Preserves invariant :=
  (steady.expect _ _).bind fun _ => (steady.identifier _).bind fun _ => steady.declaredType.bind
    fun _ => (steady.initializerMark _).bind fun _ => steady.expression.bind fun _ =>
      (steady.expect _ _).bind fun _ => .pure _

theorem expressionStatement : Parser.expressionStatement.Preserves invariant :=
  steady.expression.bind fun _ => (steady.expect _ _).bind fun _ => .pure _

theorem statement : Parser.statement.Preserves invariant := by
  refine steady.peek.bind fun token => ?_
  split
  · exact steady.variableDeclaration
  · exact steady.expressionStatement

end Programs

end Steady

namespace Stable

variable {invariant : ParserState → Prop}

theorem of_steady (steady : Steady invariant)
    (logged : ∀ {state : ParserState} (trace), invariant state → invariant { state with trace }) :
    Stable invariant :=
  { steady with record := fun _ _ h => logged _ h }

variable (stable : Stable invariant)

include stable

theorem block : Parser.block.Preserves invariant :=
  (stable.expect _ _).bind fun _ => (stable.record _).bind fun _ =>
    (Preserves.repeatWhile stable.peek stable.statement).bind fun _ => (stable.expect _ _).bind
      fun _ => .pure _

theorem functionBody : Parser.functionBody.Preserves invariant := by
  refine stable.peek.bind fun token => ?_
  split
  · exact stable.block.bind fun _ => .pure _
  · exact stable.advance.bind fun _ => .pure _
  · exact .throw _

theorem function : Parser.function.Preserves invariant :=
  (stable.expect _ _).bind fun _ => (stable.identifier _).bind fun _ => (stable.record _).bind
    fun _ => (stable.expect _ _).bind fun _ => stable.parameterList.bind fun _ =>
      (stable.expect _ _).bind fun _ => (stable.expect _ _).bind fun _ => stable.typeExpr.bind
        fun _ => stable.functionBody.bind fun _ => .pure _

theorem program : Parser.program.Preserves invariant := by
  refine stable.peek.bind fun _ => (Preserves.repeatWhile stable.peek stable.function).bind
    fun _ => stable.peek.bind fun next => ?_
  split
  · refine (stable.record _).bind fun _ => ?_
    rw [Parser.operations_programSpan]
    exact .pure _
  · exact .throw _

end Stable

end SableSyntax
