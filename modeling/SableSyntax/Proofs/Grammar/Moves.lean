/- SableSyntax/Proofs/Grammar/Moves
   digest: Tokens that are moved derive the same tree, moved in the same way. -/

import SableSyntax.Proofs.Grammar.Viable
import SableSyntax.Proofs.Syntax.Moves

set_option autoImplicit false
set_option relaxedAutoImplicit false

namespace SableSyntax

namespace Grammar

-- Where each place is moved to. It need not keep the order of places.
variable {α : Type} {move : Location → Location}

/-- Whether a rule derives from moved tokens what it derives from the tokens, moved alike. -/
def Moves (move : Location → Location) (rule : List Token → α → Prop) (place : α → α) : Prop :=
  ∀ ⦃tokens value⦄, rule tokens value → rule (tokens.map (Token.moved move)) (place value)

theorem expressionRule_moves (level : Precedence) :
    Moves move (ExpressionRule level) (Expression.moved move) := by
  intro tokens value derived
  induction derived with
  | @integer token kind => exact @ExpressionRule.integer (token.moved move) kind
  | @float token kind => exact @ExpressionRule.float (token.moved move) kind
  | @identifier token kind => exact @ExpressionRule.identifier (token.moved move) kind
  | @parenthesized opening close tokens inner left _ right ih =>
    have whole := @ExpressionRule.parenthesized (opening.moved move) (close.moved move) _ _ left ih
      right
    simpa [Expression.moved] using whole
  | product _ ih => exact .product ih
  | sum _ ih => exact .sum ih
  | @link mark operator level tighter before behind left right joins _ _ ihLeft ihRight =>
    have whole := @ExpressionRule.link (mark.moved move) _ _ _ _ _ _ _ joins ihLeft ihRight
    simpa [Expression.moved] using whole
  | chain _ ih => exact .chain ih
  | @assignment name mark tokens value target equal _ ih =>
    have whole := @ExpressionRule.assignment (name.moved move) (mark.moved move) _ _ target equal ih
    simpa [Expression.moved, Identifier.moved] using whole

theorem readable_moves (levels : Nat) (level : Precedence) :
    Moves move (Readable levels level) (Expression.moved move) := by
  intro tokens value readable
  refine ⟨expressionRule_moves level readable.derived, ?_, ?_⟩
  · intro token member
    obtain ⟨unmoved, listed, rfl⟩ := List.mem_map.1 member
    exact readable.inRange unmoved listed
  · rw [Expression.need_moved]
    exact readable.shallow

theorem mark_moves (kind : TokenKind) : Moves move (Mark kind) (Token.moved move) := by
  intro tokens token h
  obtain ⟨rfl, same⟩ := h
  exact ⟨rfl, same⟩

theorem Moves.many {rule : List Token → α → Prop} {place : α → α} (h : Moves move rule place) :
    Moves move (Many rule) (List.map place) := by
  intro tokens values derived
  induction derived with
  | nil => exact .nil
  | cons head _ ih =>
    rw [List.map_append]
    exact .cons (h head) ih

theorem typeRule_moves : Moves move TypeRule (TypeExpr.moved move) := by
  intro tokens type derived
  obtain @⟨base, stars, marks, name, pointers⟩ := derived
  have pointers' := (@mark_moves move .star).many pointers
  have whole := @TypeRule.intro (base.moved move) _ _ name pointers'
  rw [Token.span_moved, getLast?_map_span_moved move Token.span _ Token.span_moved] at whole
  simpa [TypeExpr.moved] using whole

theorem ascription_moves : Moves move Ascription (TypeExpr.moved move) := by
  intro tokens type derived
  obtain @⟨colon, _, _, mark, derived⟩ := derived
  exact @Ascription.intro (colon.moved move) _ _ mark (typeRule_moves derived)

theorem parameterRule_moves : Moves move ParameterRule (Parameter.moved move) := by
  intro tokens parameter derived
  obtain @⟨name, _, _, kind, ascribed⟩ := derived
  exact @ParameterRule.intro (name.moved move) _ _ kind (ascription_moves ascribed)

theorem furtherParameter_moves : Moves move FurtherParameter (Parameter.moved move) := by
  intro tokens parameter derived
  obtain @⟨comma, _, _, mark, derived⟩ := derived
  exact @FurtherParameter.intro (comma.moved move) _ _ mark (parameterRule_moves derived)

theorem parametersRule_moves : Moves move ParametersRule (List.map (Parameter.moved move)) := by
  intro tokens parameters derived
  cases derived with
  | none => exact .none
  | some head tail =>
    rw [List.map_append]
    exact .some (parameterRule_moves head) (furtherParameter_moves.many tail)

theorem declaredTypeRule_moves :
    Moves move DeclaredTypeRule (Option.map (TypeExpr.moved move)) := by
  intro tokens type derived
  cases derived with
  | absent => exact .absent
  | present ascribed => exact .present (ascription_moves ascribed)

section Statements

variable {expression : List Token → Expression → Prop}
  (inside : Moves move expression (Expression.moved move))

include inside

theorem statementRule_moves : Moves move (StatementRule expression) (Statement.moved move) := by
  intro tokens statement derived
  cases derived with
  | @«variable» keyword name mark close _ _ _ _ var target declared equal derived semicolon =>
    have typed := @declaredTypeRule_moves move _ _ declared
    have whole := @StatementRule.variable expression (keyword.moved move) (name.moved move)
      (mark.moved move) (close.moved move) _ _ _ _ var target typed equal (inside derived) semicolon
    simpa [Statement.moved, Identifier.moved] using whole
  | @expression close _ _ derived semicolon =>
    have whole := @StatementRule.expression expression (close.moved move) _ _ (inside derived)
      semicolon
    simpa [Statement.moved] using whole

theorem blockRule_moves : Moves move (BlockRule expression) (Block.moved move) := by
  intro tokens block derived
  obtain @⟨opening, close, _, _, left, derived, right⟩ := derived
  have whole := @BlockRule.intro expression (opening.moved move) (close.moved move) _ _ left
    ((statementRule_moves inside).many derived) right
  simpa [Block.moved] using whole

theorem bodyRule_moves : Moves move (BodyRule expression)
    fun body => (body.1.map (Block.moved move), body.2.moved move) := by
  intro tokens body derived
  cases derived with
  | block derived => exact .block (blockRule_moves inside derived)
  | @semicolon close mark => exact @BodyRule.semicolon expression (close.moved move) mark

theorem functionRule_moves : Moves move (FunctionRule expression) (Function.moved move) := by
  intro tokens function derived
  obtain @⟨keyword, name, opening, close, _, _, _, _, _, _, _, func, target, left, parameters,
    right, ascribed, body⟩ := derived
  have listed := @parametersRule_moves move _ _ parameters
  have returned := @ascription_moves move _ _ ascribed
  have filled := bodyRule_moves inside body
  have whole := @FunctionRule.intro expression (keyword.moved move) (name.moved move)
    (opening.moved move) (close.moved move) _ _ _ _ _ _ _ func target left listed right returned
    filled
  simpa [Function.moved, Identifier.moved] using whole

theorem programRule_moves {stop : Token} {tokens : List Token} {program : Program}
    (derived : ProgramRule expression stop tokens program) :
    ProgramRule expression (stop.moved move) (tokens.map (Token.moved move))
      (program.moved move) := by
  obtain @⟨functions, derived⟩ := derived
  have listed := (functionRule_moves inside).many derived
  have whole := @ProgramRule.intro expression (stop.moved move) _ _ listed
  have first : ((tokens.map (Token.moved move)).headD (stop.moved move)).span =
      (tokens.headD stop).span.moved move := by
    cases tokens <;> rfl
  have last := getLast?_map_span_moved move Function.span _ Function.span_moved functions
    (.point stop.span.start)
  rw [Span.moved_point] at last
  rw [Token.span_moved, Span.moved, last, first] at whole
  exact whole

end Statements

end Grammar

end SableSyntax
