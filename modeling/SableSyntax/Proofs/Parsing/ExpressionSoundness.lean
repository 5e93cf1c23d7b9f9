/- SableSyntax/Proofs/Parsing/ExpressionSoundness
   digest: What is read as an expression is one, and is refused at the first wrong token. -/

import SableSyntax.Parsing.Expression
import SableSyntax.Proofs.Grammar.Viable
import SableSyntax.Proofs.Parsing.Runs

set_option autoImplicit false
set_option relaxedAutoImplicit false

namespace SableSyntax

open Grammar

/-- The next token is no operator that binds tighter than a level, so that what was read at that
level may be its left operand. -/
def ParserState.Fits (level : Precedence) (state : ParserState) : Prop :=
  ∀ token rule, state.ahead.head? = some (.ok token) → token.kind.operatorRule? = some rule →
    rule.precedence ≤ level

/-- The next token is no operator that binds at a level or tighter. -/
def ParserState.Stops (level : Precedence) (state : ParserState) : Prop :=
  ∃ token, state.ahead.head? = some (.ok token) ∧
    ∀ rule, token.kind.operatorRule? = some rule → ¬ level ≤ rule.precedence

theorem ParserState.fits_primary (state : ParserState) : state.Fits .primary := by
  intro token rule _ _
  cases rule.precedence <;> decide

private theorem le_precedence_of_not_rightOperand_le {kind : TokenKind} {rule : OperatorRule}
    (isRule : kind.operatorRule? = some rule) {level : Precedence}
    (h : ¬ rule.rightOperand ≤ level) : level ≤ rule.precedence := by
  revert h
  cases kind <;> simp only [TokenKind.operatorRule?, Option.some.injEq, reduceCtorEq] at isRule
  all_goals
    subst isRule
    cases level <;> decide

theorem rightOperand_ne_assignment {kind : TokenKind} {rule : OperatorRule}
    (isRule : kind.operatorRule? = some rule) : rule.rightOperand ≠ .assignment := by
  cases kind <;> simp only [TokenKind.operatorRule?, Option.some.injEq, reduceCtorEq] at isRule
  all_goals
    subst isRule
    decide

theorem ParserState.Stops.fits {kind : TokenKind} {rule : OperatorRule} {state : ParserState}
    (h : state.Stops rule.rightOperand) (isRule : kind.operatorRule? = some rule) :
    state.Fits rule.precedence := by
  obtain ⟨token, next, stops⟩ := h
  intro token' rule' next' isRule'
  obtain rfl : token' = token := by simpa [next] using next'.symm
  exact le_precedence_of_not_rightOperand_le isRule (stops rule' isRule')

namespace ExpressionReader

open SableSyntax.Parser (operations_round Runs peek_runs peek_token_runs
  peekSecond_bind_runs advance_runs expect_runs advance_throw_runs)

/-- Readers give expressions that hold a number of levels open at most. A chain is told the left
part that it goes on with. -/
structure Sound (reader : ExpressionReader) (levels : Nat) : Prop where
  expression : ∀ state, reader.expression.Runs state
    (fun used value _ => Readable levels .assignment used value)
    (Viable (Readable levels .assignment))
  binary : ∀ level, level ≠ .assignment → ∀ state, (reader.binary level).Runs state
    (fun used value reached => Readable levels level used value ∧ reached.Stops level)
    (Viable (Readable levels level))
  chain : ∀ level, level ≠ .assignment → ∀ before left tighter state, level ≤ tighter →
    Readable (levels + left.leftSpine) tighter before left → state.Fits tighter →
    (reader.chain level left).Runs state
      (fun used value reached =>
        Readable (levels + left.leftSpine) level (before ++ used) value ∧ reached.Stops level)
      (fun used => Viable (Readable (levels + left.leftSpine) level) (before ++ used))

inductive Below : Option ExpressionReader → Nat → Prop
  | none : Below none 0
  | some {reader : ExpressionReader} {levels : Nat} (sound : reader.Sound levels) :
    Below (some reader) (levels + 1)

variable {inner : Option ExpressionReader} {levels : Nat}

theorem descend_runs {α : Type} (below : Below inner levels) {opening : Token}
    {state : ParserState} {place : Token → Token} {go : ExpressionReader → Parser α}
    {done : List Token → α → ParserState → Prop} {cut : List Token → Prop}
    (next : state.ahead.head? = some (.ok opening)) (notEnd : opening.kind ≠ .endOfInput)
    (same : place opening = opening) (stopped : cut [])
    (deeper : ∀ reader fewer reached, levels = fewer + 1 → reader.Sound fewer →
      (go reader).Runs reached (fun used => done (opening :: used))
        fun used => cut (opening :: used)) :
    Runs (do
      let token ← Parser.advance
      let reader ← descend inner (place token)
      go reader) state done cut := by
  cases below with
  | none =>
    -- No level is left, and the opening token itself is to blame.
    refine @advance_throw_runs α state opening
      (fun token => ⟨.nestingTooDeep maxNesting, (place token).span⟩) done cut next ?_ stopped
    exact .token (congrArg Token.span same) (by simp [Fault.IsUnexpectedEnd, notEnd])
  | @some reader fewer sound =>
    apply (advance_runs next notEnd).bind (fun _ => False.elim)
    intro _ _ reached _ h
    rcases h with ⟨rfl, -⟩
    exact deeper reader fewer reached rfl sound

theorem primaryOver_runs (below : Below inner levels) (state : ParserState) :
    (primaryOver inner).Runs state (fun used value _ => Readable levels .primary used value)
      (Viable (Readable levels .primary)) := by
  have begun : Viable (Readable levels .primary) [] :=
    .sample .identifier (by decide) (.of_rule (.name rfl))
  apply (peek_runs state).bind
  · intro _ h
    subst h
    exact begun
  intro _ token reached _ h
  rcases h with ⟨rfl, -, next⟩
  cases kind : token.kind
  case integer =>
    cases number : integerValue? token.text.toList with
    | none =>
      exact advance_throw_runs next (.token rfl (by simp [Fault.IsUnexpectedEnd, kind])) begun
    | some value =>
      apply (advance_runs next (by simp [kind])).bind (fun _ => False.elim)
      intro _ _ last _ h
      rcases h with ⟨rfl, -⟩
      obtain ⟨inRange, rfl⟩ := integerValue?_eq_some_iff.1 number
      exact .pure (.integer kind inRange)
  case float =>
    cases number : floatValue? token.text.toList with
    | none =>
      exact advance_throw_runs next (.token rfl (by simp [Fault.IsUnexpectedEnd, kind])) begun
    | some value =>
      apply (advance_runs next (by simp [kind])).bind (fun _ => False.elim)
      intro _ _ last _ h
      rcases h with ⟨rfl, -⟩
      obtain ⟨inRange, rfl⟩ := floatValue?_eq_some_iff.1 number
      exact .pure (.float kind inRange)
  case identifier =>
    apply (advance_runs next (by simp [kind])).bind (fun _ => False.elim)
    intro _ _ last _ h
    rcases h with ⟨rfl, -⟩
    exact .pure (.name kind)
  case leftParen =>
    simp only [enclosed_bind]
    apply descend_runs below next (by simp [kind]) rfl begun
    intro reader fewer inside h sound
    subst h
    apply (sound.expression inside).bind
    · intro used cut
      refine cut.of_part [token] fun tokens value derived => ?_
      refine .sample .rightParen (by decide) ?_
      have whole := Readable.parenthesized kind derived (kind_sample .rightParen)
      simpa using Viable.of_rule whole
    intro used value behind _ derived
    apply (expect_runs (by decide) _ behind).bind
    · intro _ h
      subst h
      refine .sample .rightParen (by decide) ?_
      have whole := Readable.parenthesized kind derived (kind_sample .rightParen)
      simpa using Viable.of_rule whole
    intro _ close last _ h
    rcases h with ⟨rfl, right⟩
    refine .pure ?_
    simpa using Readable.parenthesized kind derived right
  all_goals exact .throw next (.unexpected _ _ _) begun

theorem chainOver_runs (below : Below inner levels) {level tighter : Precedence}
    (bounded : level ≠ .assignment) {before : List Token} {left : Expression}
    {state : ParserState} (le : level ≤ tighter)
    (readable : Readable (levels + left.leftSpine) tighter before left)
    (fits : state.Fits tighter) :
    (chainOver inner level left).Runs state
      (fun used value reached =>
        Readable (levels + left.leftSpine) level (before ++ used) value ∧ reached.Stops level)
      (fun used => Viable (Readable (levels + left.leftSpine) level) (before ++ used)) := by
  have ended : Viable (Readable (levels + left.leftSpine) level) (before ++ []) := by
    simpa using Viable.of_rule (readable.loosen le)
  apply (peek_runs state).bind
  · intro _ h
    subst h
    exact ended
  intro _ token reached took h
  rcases h with ⟨rfl, -, next⟩
  have fits' : reached.Fits tighter := by
    simpa only [ParserState.Fits, took.ahead_eq_of_nil] using fits
  cases isRule : token.kind.operatorRule? with
  | none =>
    exact .pure ⟨by simpa using readable.loosen le, token, next, by simp [isRule]⟩
  | some rule =>
    by_cases binds : level ≤ rule.precedence
    · simp only [binds, ↓reduceIte, operations_round, linkOver_bind]
      have notEnd : token.kind ≠ .endOfInput := by
        intro atEnd
        simp [atEnd, TokenKind.operatorRule?] at isRule
      have joins := joins_of_operatorRule? isRule
      apply descend_runs below next notEnd rfl ended
      intro reader fewer inside h sound
      subst h
      -- No tighter operator follows the left part, so it may stand before this one.
      have leftPart := readable.loosen (fits' token rule next isRule)
      apply (sound.binary _ (rightOperand_ne_assignment isRule) inside).bind
      · intro used h
        rcases h with ⟨more, right, spelled, derived⟩
        have linked := (Readable.link joins leftPart derived).loosen binds
        exact ⟨more, _, spelled, by simpa using linked⟩
      intro used right behind _ h
      rcases h with ⟨derived, stops⟩
      have linked := Readable.link joins leftPart derived
      -- The link uses the level that its right operand was read in.
      have spine : fewer + (Expression.binary rule.operator left right
          (left.span.through right.span)).leftSpine = fewer + 1 + left.leftSpine := by
        simp only [Expression.leftSpine]
        omega
      have further := sound.chain level bounded _ _ rule.precedence behind binds (spine ▸ linked)
        (stops.fits isRule)
      rw [spine] at further
      simpa using further
    · simp only [binds, ↓reduceIte]
      refine .pure ⟨by simpa using readable.loosen le, token, next, fun rule' isRule' => ?_⟩
      obtain rfl : rule' = rule := by simpa [isRule] using isRule'.symm
      exact binds

theorem binaryOver_runs (below : Below inner levels) {level : Precedence}
    (bounded : level ≠ .assignment) (state : ParserState) :
    (binaryOver inner level).Runs state
      (fun used value reached => Readable levels level used value ∧ reached.Stops level)
      (Viable (Readable levels level)) := by
  have loose : level ≤ .primary := by cases level <;> decide
  apply (primaryOver_runs below state).bind
  · intro used h
    rcases h with ⟨more, value, spelled, derived⟩
    exact ⟨more, value, spelled, derived.loosen loose⟩
  intro used left behind _ readable
  have deeper : Readable (levels + left.leftSpine) .primary used left :=
    ⟨readable.derived, readable.inRange, Nat.le_add_right_of_le readable.shallow⟩
  have spine := readable.derived.leftSpine_of_primary
  have chained := chainOver_runs below bounded loose deeper behind.fits_primary
  simpa [spine] using chained

theorem binaryOver_name_runs (below : Below inner levels) {level : Precedence}
    (bounded : level ≠ .assignment) {name : Token} {state : ParserState}
    (next : state.ahead.head? = some (.ok name)) (kind : name.kind = .identifier) :
    (binaryOver inner level).Runs state
      (fun used value _ => used ≠ [] ∧ Readable levels level used value)
      (fun used => used ≠ [] ∧ Viable (Readable levels level) used) := by
  have taken : (primaryOver inner).Runs state
      (fun used value _ => used = [name] ∧ value = .identifier name.text name.span)
      (fun _ => False) := by
    apply (peek_token_runs next).bind (fun _ => id)
    intro _ _ reached _ h
    rcases h with ⟨rfl, rfl, next'⟩
    simp only [kind]
    apply (advance_runs next' (by simp [kind])).bind (fun _ => False.elim)
    intro _ _ last _ h
    rcases h with ⟨rfl, -⟩
    exact .pure ⟨rfl, rfl⟩
  apply taken.bind (fun _ => False.elim)
  intro _ _ behind _ h
  rcases h with ⟨rfl, rfl⟩
  have chained := chainOver_runs below bounded (by cases level <;> decide) (.name kind)
    behind.fits_primary
  exact chained.mono (fun _ _ _ _ holds => ⟨by simp, holds.1⟩) fun _ holds => ⟨by simp, holds⟩

theorem assignmentOver_runs (below : Below inner levels) {name mark : Token}
    {more : List LexResult} {state : ParserState}
    (next : state.ahead = .ok name :: .ok mark :: more) (target : name.kind = .identifier)
    (equal : mark.kind = .equal) :
    (assignmentOver inner).Runs state
      (fun used value _ => used ≠ [] ∧ Readable levels .assignment used value)
      (fun used => used ≠ [] ∧ Viable (Readable levels .assignment) used) := by
  have named : Viable (Readable levels .assignment) [name] :=
    .of_rule ((Readable.name target).loosen (by decide))
  apply (advance_runs (by rw [next]; rfl) (by simp [target])).bind (fun _ => False.elim)
  intro _ _ behind took h
  rcases h with ⟨rfl, rfl⟩
  have next' : behind.ahead = .ok mark :: more := by simpa [next] using took.ahead_eq.symm
  simp only [enclosed_bind]
  refine descend_runs below (by rw [next']; rfl) (by simp [equal]) rfl ⟨by simp, named⟩ ?_
  intro reader fewer inside h sound
  subst h
  apply (sound.expression inside).bind
  · intro used h
    rcases h with ⟨tail, value, spelled, derived⟩
    exact ⟨by simp, tail, _, spelled, .assignment target equal derived⟩
  intro used value last _ derived
  refine .pure ⟨by simp, ?_⟩
  simpa using Readable.assignment target equal derived

theorem expressionOver_runs (below : Below inner levels) (state : ParserState) :
    (expressionOver inner).Runs state (fun used value _ => Readable levels .assignment used value)
      (Viable (Readable levels .assignment)) := by
  have loose : Precedence.assignment ≤ Precedence.assignment.next := by decide
  have looser : ∀ {used : List Token}, Viable (Readable levels Precedence.assignment.next) used →
      Viable (Readable levels .assignment) used := by
    intro used h
    rcases h with ⟨more, value, spelled, derived⟩
    exact ⟨more, value, spelled, derived.loosen loose⟩
  apply (peek_runs state).bind
  · intro _ h
    subst h
    exact .sample .identifier (by decide) (.of_rule ((Readable.name rfl).loosen (by decide)))
  intro _ name reached _ h
  rcases h with ⟨rfl, -, next⟩
  by_cases kind : name.kind = .identifier
  · simp only [kind, ↓reduceIte]
    -- The second token has been looked at, so whatever goes on has to take the name.
    refine peekSecond_bind_runs next (by simp [kind])
      (.of_rule ((Readable.name kind).loosen (by decide))) fun second ahead more next' => ?_
    by_cases equal : second.kind = .equal
    · simp only [equal, ↓reduceIte]
      exact assignmentOver_runs below next' kind equal
    · simp only [equal, ↓reduceIte]
      apply (binaryOver_name_runs below (by decide) (by rw [next']; rfl) kind).mono
      · exact fun used value _ _ holds => ⟨holds.1, holds.2.loosen loose⟩
      · exact fun used holds => ⟨holds.1, looser holds.2⟩
  · simp only [kind, ↓reduceIte]
    refine (binaryOver_runs below (by decide) reached).mono ?_ fun _ => looser
    exact fun used value _ _ holds => holds.1.loosen loose

theorem layer_sound (below : Below inner levels) : (layer inner).Sound levels where
  expression := expressionOver_runs below
  binary _ bounded := binaryOver_runs below bounded
  chain _ bounded _ _ _ _ le := chainOver_runs below bounded le

theorem withLevels_sound (levels : Nat) : (withLevels levels).Sound levels := by
  induction levels with
  | zero => exact layer_sound .none
  | succ levels ih => exact layer_sound (.some ih)

end ExpressionReader

theorem Parser.expression_runs (state : ParserState) :
    Parser.expression.Runs state
      (fun used value _ => Readable maxNesting .assignment used value)
      (Viable (Readable maxNesting .assignment)) :=
  (ExpressionReader.withLevels_sound maxNesting).expression state

end SableSyntax
