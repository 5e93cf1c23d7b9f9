/- SableSyntax/Proofs/Parsing/Strata
   digest: Reading by the binding of operators comes to what reading stratum by stratum does, as
   long as it does not nest too deep. -/

import SableSyntax.Proofs.Grammar.Strata
import SableSyntax.Proofs.Parsing.Acceptance
import SableSyntax.Proofs.Parsing.Calls

set_option autoImplicit false
set_option relaxedAutoImplicit false

namespace SableSyntax

open Strata (bare)

namespace Stratum

theorem operatorRule?_cases (kind : TokenKind) :
    (kind.operatorRule? = none ∧ ∀ stratum : Stratum, stratum.operator? kind = none) ∨
    (∃ operator, kind.operatorRule? = some ⟨operator, .additive, .left⟩ ∧
      Stratum.sum.operator? kind = some operator ∧ Stratum.product.operator? kind = none) ∨
    (∃ operator, kind.operatorRule? = some ⟨operator, .multiplicative, .left⟩ ∧
      Stratum.product.operator? kind = some operator) := by
  cases kind
  case plus => exact .inr (.inl ⟨.add, rfl, rfl, rfl⟩)
  case minus => exact .inr (.inl ⟨.sub, rfl, rfl, rfl⟩)
  case star => exact .inr (.inr ⟨.mul, rfl, rfl⟩)
  case slash => exact .inr (.inr ⟨.div, rfl, rfl⟩)
  all_goals
    refine .inl ⟨rfl, fun stratum => ?_⟩
    cases stratum <;> rfl

end Stratum

theorem ne_endOfInput_of_operatorRule? {kind : TokenKind} {rule : OperatorRule}
    (isRule : kind.operatorRule? = some rule) : kind ≠ .endOfInput := by
  rintro rfl
  cases isRule

namespace Parser

variable {α β : Type}

def outcome (parser : Parser α) (state : ParserState) :
    Except SyntaxError (α × List LexResult) :=
  match parser state with
  | .ok value reached => .ok (value, reached.ahead)
  | .error error _ => .error error

/-- Whether a reader fails because no further level may be opened. -/
def NestsTooDeep (parser : Parser α) (state : ParserState) : Prop :=
  ∃ span, parser.outcome state = .error ⟨.nestingTooDeep maxNesting, span⟩

/-- A reader comes to a given outcome, unless it nests too deep. -/
def Follows (parser : Parser α) (state : ParserState)
    (expected : Except SyntaxError (α × List LexResult)) : Prop :=
  parser.NestsTooDeep state ∨ parser.outcome state = expected

section Rules

variable {parser : Parser α} {go : α → Parser β} {state : ParserState}
  {expected : Except SyntaxError (α × List LexResult)}
  {expected' : Except SyntaxError (β × List LexResult)}

theorem Follows.pure (value : α) : Follows (pure value) state (.ok (value, state.ahead)) :=
  .inr rfl

theorem Follows.throw (error : SyntaxError) :
    Follows (throw error : Parser α) state (.error error) :=
  .inr rfl

theorem Follows.bind {next : α × List LexResult → Except SyntaxError (β × List LexResult)}
    (h : parser.Follows state expected)
    (goes : ∀ value reached, parser state = .ok value reached →
      (go value).Follows reached (next (value, reached.ahead))) :
    (parser >>= go).Follows state (expected >>= next) := by
  cases read : parser state with
  | ok value reached =>
    have whole : (parser >>= go).outcome state = (go value).outcome reached := by
      simp only [outcome, Bind.bind, EStateM.bind, read]
    have same : expected = .ok (value, reached.ahead) := by
      rcases h with ⟨span, deep⟩ | same
      · simp [outcome, read] at deep
      · simpa only [outcome, read] using same.symm
    subst same
    rw [Follows, NestsTooDeep, whole]
    exact goes value reached read
  | error error reached =>
    have whole : (parser >>= go).outcome state = .error error := by
      simp only [outcome, Bind.bind, EStateM.bind, read]
    rcases h with ⟨span, deep⟩ | same
    · refine .inl ⟨span, whole.trans ?_⟩
      simpa [outcome, read] using deep
    · have same : expected = .error error := by
        simpa only [outcome, read] using same.symm
      subst same
      exact .inr whole

theorem Follows.peek {go : Token → Parser α}
    (stops : ∀ error rest, state.ahead = .error error :: rest → expected = .error error)
    (goes : ∀ token reached, reached.ahead = state.ahead →
      state.ahead.head? = some (.ok token) → (go token).Follows reached expected) :
    (Parser.peek >>= go).Follows state expected := by
  rcases peek_cases state with
    ⟨token, reached, looks, took, -, next⟩ | ⟨error, reached, looks, next⟩
  · have whole : (Parser.peek >>= go).outcome state = (go token).outcome reached := by
      simp only [outcome, Bind.bind, EStateM.bind, looks]
    rw [Follows, NestsTooDeep, whole]
    exact goes token reached took.ahead_eq_of_nil next
  · obtain ⟨rest, next⟩ := List.head?_eq_some_iff.1 next
    right
    rw [stops error rest next]
    simp only [outcome, Bind.bind, EStateM.bind, looks]

theorem Follows.peekSecond {go : Token → Parser α} {first : Token} {rest : List LexResult}
    (next : state.ahead = .ok first :: rest) (notEnd : first.kind ≠ .endOfInput)
    (stops : ∀ error more, rest = .error error :: more → expected = .error error)
    (goes : ∀ second more reached, reached.ahead = state.ahead → rest = .ok second :: more →
      (go second).Follows reached expected) :
    (Parser.peekSecond >>= go).Follows state expected := by
  rcases peekSecond_cases next notEnd with
    ⟨second, reached, looks, took, behind⟩ | ⟨error, reached, looks, behind⟩
  · obtain ⟨more, behind⟩ := List.head?_eq_some_iff.1 behind
    have whole : (Parser.peekSecond >>= go).outcome state = (go second).outcome reached := by
      simp only [outcome, Bind.bind, EStateM.bind, looks]
    rw [Follows, NestsTooDeep, whole]
    exact goes second more reached took.ahead_eq_of_nil behind
  · obtain ⟨more, behind⟩ := List.head?_eq_some_iff.1 behind
    right
    rw [stops error more behind]
    simp only [outcome, Bind.bind, EStateM.bind, looks]

theorem Follows.advance {go : Token → Parser α} {token : Token} {rest : List LexResult}
    (next : state.ahead = .ok token :: rest) (notEnd : token.kind ≠ .endOfInput)
    (goes : ∀ reached, reached.ahead = rest → (go token).Follows reached expected) :
    (Parser.advance >>= go).Follows state expected := by
  obtain ⟨reached, uses, same⟩ := advance_yields notEnd state next
  have whole : (Parser.advance >>= go).outcome state = (go token).outcome reached := by
    simp only [outcome, Bind.bind, EStateM.bind, uses]
  rw [Follows, NestsTooDeep, whole]
  exact goes reached same

theorem Follows.descend {inner : Option ExpressionReader} {opening : Token}
    {go : ExpressionReader → Parser α}
    (goes : ∀ reader ∈ inner, (go reader).Follows state expected) :
    (ExpressionReader.descend inner opening >>= go).Follows state expected := by
  cases inner with
  | none => exact .inl ⟨opening.span, rfl⟩
  | some reader => exact goes reader rfl

theorem expect_follows {kind : TokenKind} (notEnd : kind ≠ .endOfInput) (construct : Construct)
    (state : ParserState) :
    (expect kind construct).Follows state (bare (Strata.mark kind construct state.ahead)) := by
  refine .peek (fun error rest next => ?_) fun token reached same next => ?_
  · rw [next]
    rfl
  · obtain ⟨rest, next⟩ := List.head?_eq_some_iff.1 next
    rw [next, Strata.mark]
    by_cases found : token.kind = kind
    · rw [if_pos found, if_pos found, operations_advance, ← bind_pure Parser.advance]
      refine .advance (same.trans next) (found ▸ notEnd) fun last behind => ?_
      rw [← behind]
      exact .pure token
    · rw [if_neg found, if_neg found]
      exact .throw _

end Rules

end Parser

namespace ExpressionReader

open SableSyntax.Parser (Follows)

structure Stratified (reader : ExpressionReader) : Prop where
  expression : ∀ state, reader.expression.Follows state (bare (Strata.expression state.ahead))
  /-- A primary by itself is read with a look at what is behind it. -/
  alone : reader.binary .primary = (do
    let value ← reader.primary
    let _ ← Parser.peek
    return value)
  primary : ∀ state, reader.primary.Follows state (bare (Strata.primary state.ahead))
  product : ∀ state,
    (reader.binary .multiplicative).Follows state (bare (Strata.product state.ahead))
  sum : ∀ state, (reader.binary .additive).Follows state (bare (Strata.sum state.ahead))
  factors : ∀ left state,
    (reader.chain .multiplicative left).Follows state
      (bare (Strata.links .product left state.ahead))
  terms : ∀ left state, (reader.chain .additive left).Follows state (do
    let (first, behind) ← bare (Strata.links .product left state.ahead)
    bare (Strata.links .sum first behind))
  /-- No product goes on behind one that was read. -/
  stops : ∀ state value reached, reader.binary .multiplicative state = .ok value reached →
    reached.Stops .multiplicative

variable {inner : Option ExpressionReader}

theorem primaryOver_follows (below : ∀ reader ∈ inner, reader.Stratified) (state : ParserState) :
    (primaryOver inner).Follows state (bare (Strata.primary state.ahead)) := by
  refine .peek (fun error rest next => ?_) fun token reached same next => ?_
  · rw [next, Strata.primary_of_fault]
  obtain ⟨rest, next⟩ := List.head?_eq_some_iff.1 next
  rw [next] at same ⊢
  cases kind : token.kind
  case leftParen =>
    rw [Strata.primary_of_leftParen kind]
    simp only [enclosed_bind]
    refine .advance same (by simp [kind]) fun middle ahead => ?_
    subst ahead
    refine .descend fun reader member => ?_
    refine ((below reader member).expression middle).bind fun value reached _ => ?_
    refine (Parser.expect_follows (by decide) _ reached).bind fun close last _ => ?_
    exact .pure _
  case identifier =>
    rw [Strata.primary_of_identifier kind]
    refine .advance same (by simp [kind]) fun middle ahead => ?_
    subst ahead
    exact .pure _
  case integer =>
    rw [Strata.primary_of_integer kind]
    refine .advance same (by simp [kind]) fun middle ahead => ?_
    subst ahead
    cases integerValue? token.text.toList with
    | some value => exact .pure _
    | none => exact .throw _
  case float =>
    rw [Strata.primary_of_float kind]
    refine .advance same (by simp [kind]) fun middle ahead => ?_
    subst ahead
    cases floatValue? token.text.toList with
    | some value => exact .pure _
    | none => exact .throw _
  all_goals
    rw [Strata.primary]
    simp only [kind]
    exact .throw _

theorem chainOver_primary (inner : Option ExpressionReader) (left : Expression) :
    chainOver inner .primary left = (do
      let _ ← Parser.peek
      return left) := by
  unfold chainOver Operations.chainOver
  congr
  funext token
  rcases Stratum.operatorRule?_cases token.kind with
    ⟨none, -⟩ | ⟨operator, some, -⟩ | ⟨operator, some, -⟩
  · rw [none]
  · simp only [some]
    exact if_neg (by decide)
  · simp only [some]
    exact if_neg (by decide)

theorem links_of_stops {state : ParserState} (stops : state.Stops .multiplicative)
    (left : Expression) :
    bare (Strata.links .product left state.ahead) = .ok (left, state.ahead) := by
  obtain ⟨token, next, looser⟩ := stops
  obtain ⟨rest, next⟩ := List.head?_eq_some_iff.1 next
  rw [next]
  apply Strata.links_of_none
  rcases Stratum.operatorRule?_cases token.kind with
    ⟨-, other⟩ | ⟨operator, -, -, other⟩ | ⟨operator, isRule, -⟩
  · exact other .product
  · exact other
  · have tight : Precedence.multiplicative ≤ .multiplicative := by decide
    exact absurd tight (looser _ isRule)

theorem Stratified.primary_bind {reader : ExpressionReader} (h : reader.Stratified) {α : Type}
    {go : Expression → Parser α}
    {next : Expression × List LexResult → Except SyntaxError (α × List LexResult)}
    (stops : ∀ right error rest, next (right, .error error :: rest) = .error error)
    (goes : ∀ right state, (go right).Follows state (next (right, state.ahead)))
    (state : ParserState) :
    (reader.binary .primary >>= go).Follows state (bare (Strata.primary state.ahead) >>= next) := by
  have looks : (reader.binary .primary >>= go) = (do
      let right ← reader.primary
      let _ ← Parser.peek
      go right) := by
    rw [h.alone]
    simp only [bind_assoc, pure_bind]
  rw [looks]
  refine (h.primary state).bind fun right reached _ => ?_
  refine .peek (fun error rest same => ?_) fun _ last same _ => ?_
  · rw [same, stops]
  · rw [← same]
    exact goes right last

theorem chainOver_factors (below : ∀ reader ∈ inner, reader.Stratified) (left : Expression)
    (state : ParserState) : (chainOver inner .multiplicative left).Follows state
      (bare (Strata.links .product left state.ahead)) := by
  refine .peek (fun error rest next => ?_) fun token reached same next => ?_
  · rw [next, Strata.links_of_fault]
  obtain ⟨rest, next⟩ := List.head?_eq_some_iff.1 next
  rw [next] at same ⊢
  rcases Stratum.operatorRule?_cases token.kind with
    ⟨isRule, other⟩ | ⟨operator, isRule, -, other⟩ | ⟨operator, isRule, isOperator⟩
  · rw [isRule, Strata.links_of_none (other _), ← same]
    exact .pure left
  · have looser : ¬ Precedence.multiplicative ≤ .additive := by decide
    simp only [isRule, looser, ↓reduceIte]
    rw [Strata.links_of_none other, ← same]
    exact .pure left
  · have binds : Precedence.multiplicative ≤ .multiplicative := by decide
    simp only [isRule, binds, ↓reduceIte, Parser.operations_round, linkOver_bind]
    rw [Strata.links_of_operator isOperator]
    refine .advance same (ne_endOfInput_of_operatorRule? isRule) fun middle ahead => ?_
    subst ahead
    refine .descend fun reader member => ?_
    refine (below reader member).primary_bind (fun _ error rest => ?_) (fun right last => ?_) middle
    · exact Strata.links_of_fault _ _ error rest
    · exact (below reader member).factors _ last

theorem terms_of_stays {left : Expression} {stream : List LexResult}
    (stays : bare (Strata.links .product left stream) = .ok (left, stream)) :
    (do
      let (first, behind) ← bare (Strata.links .product left stream)
      bare (Strata.links .sum first behind)) = bare (Strata.links .sum left stream) := by
  rw [stays]
  rfl

theorem chainOver_terms (below : ∀ reader ∈ inner, reader.Stratified) (left : Expression)
    (state : ParserState) : (chainOver inner .additive left).Follows state (do
      let (first, behind) ← bare (Strata.links .product left state.ahead)
      bare (Strata.links .sum first behind)) := by
  refine .peek (fun error rest next => ?_) fun token reached same next => ?_
  · rw [next, Strata.links_of_fault]
    rfl
  obtain ⟨rest, next⟩ := List.head?_eq_some_iff.1 next
  rw [next] at same ⊢
  rcases Stratum.operatorRule?_cases token.kind with
    ⟨isRule, other⟩ | ⟨operator, isRule, isOperator, other⟩ | ⟨operator, isRule, isOperator⟩
  · rw [isRule, terms_of_stays (Strata.links_of_none (other _)),
      Strata.links_of_none (other _), ← same]
    exact .pure left
  · have binds : Precedence.additive ≤ .additive := by decide
    simp only [isRule, binds, ↓reduceIte, Parser.operations_round, linkOver_bind]
    rw [terms_of_stays (Strata.links_of_none other), Strata.links_of_operator isOperator]
    refine .advance same (ne_endOfInput_of_operatorRule? isRule) fun middle ahead => ?_
    subst ahead
    refine .descend fun reader member => ?_
    refine ((below reader member).product middle).bind fun right last read => ?_
    -- The right operand is a whole product, so the chain goes on with a term or not at all.
    have stops := (below reader member).stops _ _ _ read
    have goes := (below reader member).terms
      (.binary operator left right (left.span.through right.span)) last
    rw [terms_of_stays (links_of_stops stops _)] at goes
    exact goes
  · have binds : Precedence.additive ≤ .multiplicative := by decide
    simp only [isRule, binds, ↓reduceIte, Parser.operations_round, linkOver_bind]
    rw [Strata.links_of_operator isOperator, bind_assoc]
    refine .advance same (ne_endOfInput_of_operatorRule? isRule) fun middle ahead => ?_
    subst ahead
    refine .descend fun reader member => ?_
    refine (below reader member).primary_bind (fun _ error rest => ?_) (fun right last => ?_) middle
    · exact congrArg (· >>= _) (Strata.links_of_fault _ _ error rest)
    · exact (below reader member).terms _ last

theorem binaryOver_product (below : ∀ reader ∈ inner, reader.Stratified) (state : ParserState) :
    (binaryOver inner .multiplicative).Follows state (bare (Strata.product state.ahead)) := by
  rw [Strata.product_eq]
  exact (primaryOver_follows below state).bind fun left reached _ =>
    chainOver_factors below left reached

theorem binaryOver_sum (below : ∀ reader ∈ inner, reader.Stratified) (state : ParserState) :
    (binaryOver inner .additive).Follows state (bare (Strata.sum state.ahead)) := by
  rw [Strata.sum_eq, Strata.product_eq, bind_assoc]
  exact (primaryOver_follows below state).bind fun left reached _ =>
    chainOver_terms below left reached

theorem assignmentOver_follows (below : ∀ reader ∈ inner, reader.Stratified)
    {state : ParserState} {name equal : Token} {rest : List LexResult}
    (next : state.ahead = .ok name :: .ok equal :: rest) (isName : name.kind = .identifier)
    (isEqual : equal.kind = .equal) :
    (assignmentOver inner).Follows state (bare (Strata.expression state.ahead)) := by
  rw [next, Strata.expression_of_assignment isName isEqual]
  refine .advance next (by simp [isName]) fun middle ahead => ?_
  refine .advance ahead (by simp [isEqual]) fun last ahead => ?_
  rw [enclosed_bind]
  subst ahead
  refine .descend fun reader member => ?_
  exact ((below reader member).expression last).bind fun value reached _ => .pure _

theorem expressionOver_follows (below : ∀ reader ∈ inner, reader.Stratified)
    (state : ParserState) :
    (expressionOver inner).Follows state (bare (Strata.expression state.ahead)) := by
  refine .peek (fun error rest next => ?_) fun first reached same next => ?_
  · rw [next, Strata.expression_of_other (by simp), Strata.sum_eq, Strata.product_eq,
      Strata.primary_of_fault]
    rfl
  rw [← same] at next ⊢
  obtain ⟨rest, next⟩ := List.head?_eq_some_iff.1 next
  split
  · next isName =>
    refine .peekSecond next (by simp [isName]) (fun error more behind => ?_)
      fun second more last same behind => ?_
    · rw [next, behind, Strata.expression_of_other (by simp), Strata.sum_eq, Strata.product_eq,
        Strata.primary_of_identifier isName]
      exact congrArg (· >>= _) (Strata.links_of_fault _ _ error more)
    rw [behind] at next
    split
    · next isEqual =>
      rw [← same] at next ⊢
      exact assignmentOver_follows below next isName isEqual
    · next other =>
      rw [← same, Strata.expression_of_other]
      · exact binaryOver_sum below last
      · intro name equal more ahead isAssignment
        rw [same, next] at ahead
        cases ahead
        exact other isAssignment.2
  · next other =>
    rw [Strata.expression_of_other]
    · exact binaryOver_sum below reached
    · intro name equal more ahead isAssignment
      rw [next] at ahead
      cases ahead
      exact other isAssignment.1

theorem layer_stratified (below : ∀ reader ∈ inner, reader.Stratified)
    (stops : ∀ state value reached, (layer inner).binary .multiplicative state =
      .ok value reached → reached.Stops .multiplicative) : (layer inner).Stratified where
  expression := expressionOver_follows below
  alone := by
    simp only [layer, Operations.layer, Operations.binaryOver, Parser.operations_enter,
      Parser.operations_restoring, chainOver_primary]
  primary := primaryOver_follows below
  product := binaryOver_product below
  sum := binaryOver_sum below
  factors := chainOver_factors below
  terms := chainOver_terms below
  stops := stops

theorem withLevels_stops {levels : Nat} {least : Precedence} {state reached : ParserState}
    {value : Expression} (read : (withLevels levels).binary least state = .ok value reached) :
    reached.Stops least := by
  by_cases loosest : least = .assignment
  · subst loosest
    rw [(withLevels_assignment levels).1] at read
    obtain ⟨-, -, -, token, next, looser⟩ :=
      Parser.Runs.of_ok ((withLevels_sound levels).binary .additive (by decide) state) read
    exact ⟨token, next, fun rule isRule _ => looser rule isRule (additive_le_precedence isRule)⟩
  · obtain ⟨-, -, -, stops⟩ :=
      Parser.Runs.of_ok ((withLevels_sound levels).binary least loosest state) read
    exact stops

theorem withLevels_stratified (levels : Nat) : (withLevels levels).Stratified := by
  induction levels with
  | zero =>
    refine layer_stratified nofun fun _ _ _ => ?_
    exact @withLevels_stops 0 .multiplicative _ _ _
  | succ levels ih =>
    refine layer_stratified (fun reader member => ?_) fun _ _ _ => ?_
    · cases member
      exact ih
    · exact @withLevels_stops (levels + 1) .multiplicative _ _ _

end ExpressionReader

open ExpressionReader (withLevels withLevels_stratified withLevels_stops)

/-- Reading by the binding of operators agrees with reading stratum by stratum, at every level and
on failures too. From every state and with any number of levels left, reading operands joined by
operators at a level or tighter nests too deep, or it comes to the same value with the same results
left ahead, or to the same error, as the strata do, which know no bound on nesting. What it gives
ends in front of the first token that is no such operator, which is left ahead. -/
theorem binary_agrees_with_strata (levels : Nat) (least : Precedence) (state : ParserState) :
    (((withLevels levels).binary least).NestsTooDeep state ∨
      ((withLevels levels).binary least).outcome state = Strata.binary least state.ahead) ∧
    ∀ value rest, ((withLevels levels).binary least).outcome state = .ok (value, rest) →
      ∃ token more, rest = .ok token :: more ∧
        ∀ rule, token.kind.operatorRule? = some rule → ¬ least ≤ rule.precedence := by
  have reader := withLevels_stratified levels
  constructor
  · cases least with
    | assignment =>
      rw [(withLevels_assignment levels).1]
      exact reader.sum state
    | additive => exact reader.sum state
    | multiplicative => exact reader.product state
    | primary =>
      rw [reader.alone]
      refine (reader.primary state).bind fun value reached _ => ?_
      refine .peek (fun error rest same => ?_) fun token last same next => ?_
      · simp only [same, Strata.lookBehind]
      · obtain ⟨rest, next⟩ := List.head?_eq_some_iff.1 next
        rw [next] at same ⊢
        simp only [Strata.lookBehind, ← same]
        exact .pure value
  · intro value rest same
    unfold Parser.outcome at same
    split at same
    · next found reached read =>
      cases same
      obtain ⟨token, next, looser⟩ := withLevels_stops read
      obtain ⟨more, next⟩ := List.head?_eq_some_iff.1 next
      exact ⟨token, more, next, looser⟩
    · cases same

/-- A fault behind a primary is met by the look behind it, though the primary itself is read. -/
theorem binary_primary_meets_fault :
    ¬ ((Parser.binary .primary).NestsTooDeep (.ofText "1 $") ∨
      (Parser.binary .primary).outcome (.ofText "1 $") =
        bare (Strata.primary (ParserState.ofText "1 $").ahead)) := by
  have failed : (Parser.binary .primary).outcome (.ofText "1 $") =
      .error ⟨.unrecognizedCharacter '$', ⟨⟨2, 1, 3⟩, ⟨3, 1, 4⟩⟩⟩ := rfl
  have ahead : (ParserState.ofText "1 $").ahead =
      .ok ⟨⟨.integer, "1"⟩, ⟨⟨0, 1, 1⟩, ⟨1, 1, 2⟩⟩⟩ :: Cursor.results ⟨⟨1, 1, 2⟩, [' ', '$']⟩ :=
    Cursor.results_of_token rfl (by decide)
  have read : ∃ value rest,
      bare (Strata.primary (ParserState.ofText "1 $").ahead) = .ok (value, rest) := by
    rw [ahead, Strata.primary_of_integer rfl]
    exact ⟨_, _, rfl⟩
  obtain ⟨value, rest, read⟩ := read
  rw [Parser.NestsTooDeep, failed, read]
  rintro (⟨span, deep⟩ | same)
  · cases deep
  · cases same

end SableSyntax
