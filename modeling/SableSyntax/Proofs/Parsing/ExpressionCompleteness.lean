/- SableSyntax/Proofs/Parsing/ExpressionCompleteness
   digest: Every expression that stays within the levels there are is found with its tree. -/

import SableSyntax.Proofs.Parsing.ExpressionSoundness
import SableSyntax.Proofs.Parsing.Yields

set_option autoImplicit false
set_option relaxedAutoImplicit false

namespace SableSyntax

open Grammar

namespace Grammar

theorem Joins.operatorRule? {kind : TokenKind} {operator : BinaryOperator}
    {level tighter : Precedence} (joins : Joins kind operator level tighter) :
    ∃ rule, kind.operatorRule? = some rule ∧ rule.operator = operator ∧
      rule.precedence = level ∧ rule.rightOperand = tighter := by
  cases joins <;> exact ⟨_, rfl, rfl, rfl, rfl⟩

theorem Joins.ne_equal {kind : TokenKind} {operator : BinaryOperator} {level tighter : Precedence}
    (joins : Joins kind operator level tighter) : kind ≠ .equal := by
  cases joins <;> decide

theorem Joins.level_ne_assignment {kind : TokenKind} {operator : BinaryOperator}
    {level tighter : Precedence} (joins : Joins kind operator level tighter) :
    level ≠ .assignment := by
  cases joins <;> decide

theorem Joins.tighter_ne_assignment {kind : TokenKind} {operator : BinaryOperator}
    {level tighter : Precedence} (joins : Joins kind operator level tighter) :
    tighter ≠ .assignment := by
  cases joins <;> decide

theorem Joins.le {kind : TokenKind} {operator : BinaryOperator} {level tighter : Precedence}
    (joins : Joins kind operator level tighter) : level ≤ tighter := by
  cases joins <;> decide

theorem Joins.not_le_of_le {kind : TokenKind} {operator : BinaryOperator}
    {level tighter other : Precedence} (joins : Joins kind operator level tighter)
    (le : other ≤ level) : ¬ tighter ≤ other := by
  revert le
  cases joins <;> cases other <;> decide

theorem ExpressionRule.second_ne_equal {level : Precedence} {tokens : List Token}
    {value : Expression} (derived : ExpressionRule level tokens value) (sum : level ≠ .assignment)
    {next : Token} (follows : next.kind ≠ .equal) :
    ∃ first rest, tokens = first :: rest ∧
      (first.kind = .identifier → (rest.headD next).kind ≠ .equal) := by
  induction derived generalizing next with
  | integer | float | identifier => exact ⟨_, [], rfl, fun _ => follows⟩
  | parenthesized left =>
    refine ⟨_, _, rfl, fun kind => ?_⟩
    simp [left] at kind
  | product _ ih | sum _ ih => exact ih (by decide) follows
  | @link mark _ _ _ _ behind _ _ joins _ _ ih _ =>
    obtain ⟨first, rest, rfl, second⟩ := ih sum joins.ne_equal
    refine ⟨first, rest ++ mark :: behind, rfl, fun kind => ?_⟩
    cases rest <;> simpa using second kind
  | chain | assignment => exact absurd rfl sum

end Grammar

/-- Whether a token is no operator that binds tighter than a level, so that what is derived at the
level may stand before it. -/
def Token.Fits (level : Precedence) (token : Token) : Prop :=
  ∀ rule, token.kind.operatorRule? = some rule → rule.precedence ≤ level

/-- Whether a token neither goes on with a chain nor makes an assignment of the name before it. -/
def Token.EndsExpression (token : Token) : Prop :=
  token.kind.operatorRule? = none ∧ token.kind ≠ .equal

namespace ExpressionReader

open SableSyntax.Parser (Yields advance_yields expect_yields peek_yields peekSecond_yields)

def inner : Nat → Option ExpressionReader
  | 0 => none
  | levels + 1 => some (withLevels levels)

theorem withLevels_eq (levels : Nat) : withLevels levels = layer (inner levels) := by
  cases levels <;> rfl

theorem withLevels_expression (levels : Nat) :
    (withLevels levels).expression = expressionOver (inner levels) := by
  rw [withLevels_eq]
  rfl

theorem withLevels_chain (levels : Nat) :
    (withLevels levels).chain = chainOver (inner levels) := by
  rw [withLevels_eq]
  rfl

theorem withLevels_binary (levels : Nat) (least : Precedence) :
    (withLevels levels).binary least = (do
      let left ← primaryOver (inner levels)
      (withLevels levels).chain least left) := by
  rw [withLevels_eq]
  rfl

variable {levels : Nat} {least : Precedence} {next : Token} {more rest : List LexResult}
  {left value : Expression}

theorem chain_yields_of_stops
    (stops : ∀ rule, next.kind.operatorRule? = some rule → ¬ least ≤ rule.precedence) :
    ((withLevels levels).chain least left).Yields (.ok next :: more) left (.ok next :: more) := by
  rw [withLevels_chain]
  refine .bind peek_yields ?_
  cases isRule : next.kind.operatorRule? with
  | none => exact .pure left
  | some rule =>
    simp only [stops rule isRule, ↓reduceIte]
    exact .pure left

theorem chain_yields_of_link {operator : BinaryOperator} {level tighter : Precedence}
    {mark : Token} {right : Expression} {ahead middle : List LexResult}
    (joins : Joins mark.kind operator level tighter) (binds : least ≤ level)
    (operand : ((withLevels levels).binary tighter).Yields ahead right middle)
    (further : ((withLevels levels).chain least
      (.binary operator left right (left.span.through right.span))).Yields middle value rest) :
    ((withLevels (levels + 1)).chain least left).Yields (.ok mark :: ahead) value rest := by
  obtain ⟨rule, isRule, rfl, rfl, rfl⟩ := joins.operatorRule?
  have notEnd : mark.kind ≠ .endOfInput := by
    intro atEnd
    simp [atEnd, TokenKind.operatorRule?] at isRule
  rw [withLevels_chain]
  refine .bind peek_yields ?_
  simp only [isRule, binds, ↓reduceIte]
  exact .bind (.bind (advance_yields notEnd) (.bind (.pure _) (.bind operand (.pure _)))) further

theorem primaryOver_yields_integer {inner : Option ExpressionReader} {token : Token}
    (kind : token.kind = .integer) (inRange : token.InRange) :
    (primaryOver inner).Yields (.ok token :: rest)
      (.integer (.ofNat (digitsValue token.text.toList)) token.span) rest := by
  have number := integerValue?_eq_some_iff.2
    ⟨by simpa [Lexeme.InRange, kind] using inRange, rfl⟩
  refine .bind peek_yields ?_
  simp only [kind, number]
  exact .bind (advance_yields (by simp [kind])) (.pure _)

theorem primaryOver_yields_float {inner : Option ExpressionReader} {token : Token}
    (kind : token.kind = .float) (inRange : token.InRange) :
    (primaryOver inner).Yields (.ok token :: rest)
      (.float (floatReading token.text.toList) token.span) rest := by
  have number := floatValue?_eq_some_iff.2
    ⟨by simpa [Lexeme.InRange, kind] using inRange, rfl⟩
  refine .bind peek_yields ?_
  simp only [kind, number]
  exact .bind (advance_yields (by simp [kind])) (.pure _)

theorem primaryOver_yields_identifier {inner : Option ExpressionReader} {token : Token}
    (kind : token.kind = .identifier) :
    (primaryOver inner).Yields (.ok token :: rest) (.identifier token.text token.span) rest := by
  refine .bind peek_yields ?_
  simp only [kind]
  exact .bind (advance_yields (by simp [kind])) (.pure _)

theorem primaryOver_yields_parenthesized {opening close : Token} {ahead : List LexResult}
    (opens : opening.kind = .leftParen)
    (inside : (withLevels levels).expression.Yields ahead value (.ok close :: rest))
    (closes : close.kind = .rightParen) :
    (primaryOver (inner (levels + 1))).Yields (.ok opening :: ahead)
      (.parenthesized value (opening.span.through close.span)) rest := by
  refine .bind peek_yields ?_
  simp only [opens]
  exact .bind (advance_yields (by simp [opens])) (.bind (.bind (.pure _) inside)
    (.bind (expect_yields closes (by decide)) (.pure _)))

theorem expressionOver_yields_assignment {name mark : Token} {ahead : List LexResult}
    (target : name.kind = .identifier) (equal : mark.kind = .equal)
    (inside : (withLevels levels).expression.Yields ahead value rest) :
    (expressionOver (inner (levels + 1))).Yields (.ok name :: .ok mark :: ahead)
      (.assignment ⟨name.text, name.span⟩ value (name.span.through value.span)) rest := by
  have notEnd : name.kind ≠ .endOfInput := by simp [target]
  refine .bind peek_yields ?_
  simp only [target, ↓reduceIte]
  refine .bind (peekSecond_yields notEnd) ?_
  simp only [equal, ↓reduceIte]
  exact .bind (advance_yields notEnd) (.bind (advance_yields (by simp [equal]))
    (.bind (.bind (.pure _) inside) (.pure _)))

theorem expressionOver_yields_sum {inner : Option ExpressionReader} {first second : Token}
    (other : first.kind = .identifier → second.kind ≠ .equal)
    (sum : (binaryOver inner .additive).Yields (.ok first :: .ok second :: more) value rest) :
    (expressionOver inner).Yields (.ok first :: .ok second :: more) value rest := by
  refine .bind peek_yields ?_
  by_cases kind : first.kind = .identifier
  · simp only [kind, ↓reduceIte]
    refine .bind (peekSecond_yields (by simp [kind])) ?_
    simp only [other kind, ↓reduceIte]
    exact sum
  · simp only [kind, ↓reduceIte]
    exact sum

/-- Readers find an expression that needs no more levels than they have. A chain is found as the
left part with which the reading goes on, each link of it one level deeper. -/
structure Finds (level : Precedence) (tokens : List Token) (value : Expression) : Prop where
  expression : level = .assignment → ∀ {levels next more}, value.need ≤ levels →
    next.EndsExpression →
    (withLevels levels).expression.Yields (tokens.map .ok ++ .ok next :: more) value
      (.ok next :: more)
  binary : level ≠ .assignment → ∀ {levels least next more whole rest},
    value.need ≤ levels + value.leftSpine → least ≤ level → next.Fits level →
    ((withLevels levels).chain least value).Yields (.ok next :: more) whole rest →
    ((withLevels (levels + value.leftSpine)).binary least).Yields
      (tokens.map .ok ++ .ok next :: more) whole rest

theorem finds_of_primary {tokens : List Token} (flat : value.leftSpine = 0)
    (found : ∀ {levels rest}, value.need ≤ levels →
      (primaryOver (inner levels)).Yields (tokens.map .ok ++ rest) value rest) :
    Finds .primary tokens value where
  expression level := nomatch level
  binary _ {levels least next more whole rest} enough _ _ further := by
    rw [flat, Nat.add_zero] at enough ⊢
    rw [withLevels_binary]
    exact .bind (found enough) further

theorem Finds.tighten {level tighter : Precedence} {tokens : List Token}
    (h : Finds tighter tokens value) (le : level ≤ tighter) (bounded : level ≠ .assignment) :
    Finds level tokens value where
  expression same := absurd same bounded
  binary _ {levels least next more whole rest} enough below fits further := by
    have bounded' : tighter ≠ .assignment := by
      intro same
      subst same
      cases level <;> first | exact bounded rfl | exact absurd le (by decide)
    refine h.binary bounded' enough (Nat.le_trans below le) ?_ further
    exact fun rule isRule => Nat.le_trans (fits rule isRule) le

theorem Finds.operand {level : Precedence} {tokens : List Token} (h : Finds level tokens value)
    (bounded : level ≠ .assignment) (enough : value.need ≤ levels) (fits : next.Fits level)
    (stops : ∀ rule, next.kind.operatorRule? = some rule → ¬ level ≤ rule.precedence) :
    ((withLevels levels).binary level).Yields (tokens.map .ok ++ .ok next :: more) value
      (.ok next :: more) := by
  have spine := value.leftSpine_le_need
  obtain ⟨fewer, rfl⟩ := Nat.exists_eq_add_of_le' (Nat.le_trans spine enough)
  exact h.binary bounded enough (Nat.le_refl _) fits (chain_yields_of_stops stops)

theorem Finds.link {mark : Token} {operator : BinaryOperator} {level tighter : Precedence}
    {before behind : List Token} {right : Expression}
    (joins : Joins mark.kind operator level tighter) (hleft : Finds level before left)
    (hright : Finds tighter behind right) :
    Finds level (before ++ mark :: behind)
      (.binary operator left right (left.span.through right.span)) where
  expression same := absurd same joins.level_ne_assignment
  binary bounded {levels least next more whole rest} enough below fits further := by
    simp only [Expression.need, Expression.leftSpine] at enough ⊢
    obtain ⟨rule, isRule, -, precedence, -⟩ := joins.operatorRule?
    have operand : ((withLevels levels).binary tighter).Yields
        (behind.map .ok ++ .ok next :: more) right (.ok next :: more) := by
      apply hright.operand joins.tighter_ne_assignment (by omega)
      · exact fun other isOther => Nat.le_trans (fits other isOther) joins.le
      · exact fun other isOther => joins.not_le_of_le (fits other isOther)
    have chained := chain_yields_of_link joins below operand further
    -- The left part is found with the link as what the reading goes on with.
    have room : levels + (left.leftSpine + 1) = levels + 1 + left.leftSpine := by omega
    rw [room, List.map_append, List.append_assoc]
    refine hleft.binary bounded (by omega) below (fun other isOther => ?_) chained
    obtain rfl : other = rule := by simpa [isRule] using isOther.symm
    exact precedence ▸ Nat.le_refl _

theorem Finds.chain {tokens : List Token} (h : Finds .additive tokens value)
    (derived : ExpressionRule .additive tokens value) : Finds .assignment tokens value where
  binary bounded := absurd rfl bounded
  expression _ {levels next more} enough ends := by
    have fits : ∀ {level}, next.Fits level := fun rule isRule => by simp [ends.1] at isRule
    have sum : ((withLevels levels).binary .additive).Yields (tokens.map .ok ++ .ok next :: more)
        value (.ok next :: more) :=
      h.operand (by decide) enough fits fun rule isRule => by simp [ends.1] at isRule
    obtain ⟨first, others, rfl, other⟩ := derived.second_ne_equal (by decide) ends.2
    rw [withLevels_eq] at sum ⊢
    cases others with
    | nil => exact expressionOver_yields_sum other sum
    | cons second others => exact expressionOver_yields_sum other sum

theorem finds {level : Precedence} {tokens : List Token}
    (derived : ExpressionRule level tokens value)
    (inRange : ∀ token ∈ tokens, token.InRange) : Finds level tokens value := by
  induction derived with
  | integer kind =>
    exact finds_of_primary rfl fun _ => primaryOver_yields_integer kind (by simpa using inRange)
  | float kind =>
    exact finds_of_primary rfl fun _ => primaryOver_yields_float kind (by simpa using inRange)
  | identifier kind => exact finds_of_primary rfl fun _ => primaryOver_yields_identifier kind
  | @parenthesized opening close tokens value opens _ closes ih =>
    simp only [List.mem_cons, List.mem_append, or_imp, forall_and] at inRange
    refine finds_of_primary rfl fun {levels rest} enough => ?_
    -- The expression needs a level, so there are readers one level deeper.
    obtain ⟨fewer, rfl⟩ := Nat.exists_eq_add_of_le' (show 1 ≤ levels by
      simp only [Expression.need] at enough
      omega)
    have ends : close.EndsExpression := by
      simp [Token.EndsExpression, closes, TokenKind.operatorRule?]
    simpa using primaryOver_yields_parenthesized opens
      ((ih inRange.2.1).expression rfl (Nat.le_of_succ_le_succ enough) ends) closes
  | product _ ih => exact (ih inRange).tighten (by decide) (by decide)
  | sum _ ih => exact (ih inRange).tighten (by decide) (by decide)
  | link joins derivedLeft _ ihLeft ihRight =>
    simp only [List.mem_cons, List.mem_append, or_imp, forall_and] at inRange
    exact .link joins (ihLeft inRange.1) (ihRight inRange.2.2)
  | chain derived ih => exact (ih inRange).chain derived
  | @assignment name mark tokens value target equal _ ih =>
    simp only [List.mem_cons, or_imp, forall_and] at inRange
    refine ⟨fun _ => ?_, fun bounded => absurd rfl bounded⟩
    intro levels next more enough ends
    obtain ⟨fewer, rfl⟩ := Nat.exists_eq_add_of_le' (show 1 ≤ levels by
      simp only [Expression.need] at enough
      omega)
    rw [withLevels_expression]
    exact expressionOver_yields_assignment target equal
      ((ih inRange.2.2).expression rfl (Nat.le_of_succ_le_succ enough) ends)

end ExpressionReader

open ExpressionReader in
theorem Parser.expression_completes :
    Parser.expression.Completes (Readable maxNesting .assignment) Token.EndsExpression :=
  fun _ _ _ _ readable ends =>
    (finds readable.derived readable.inRange).expression rfl readable.shallow ends

end SableSyntax
