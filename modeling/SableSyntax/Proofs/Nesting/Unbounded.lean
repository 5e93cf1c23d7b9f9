/- SableSyntax/Proofs/Nesting/Unbounded
   digest: Readers that may open any number of levels, which alone are their own next layer. -/

import SableSyntax.Proofs.Parsing.ExpressionCompleteness

set_option autoImplicit false
set_option relaxedAutoImplicit false

namespace SableSyntax

namespace Parser

variable {α β : Type}

/-- Two sequences come to the same from a state where their first parts do and their second parts do
behind these. -/
theorem bind_eq_bind {first first' : Parser α} {second second' : α → Parser β}
    {state : ParserState} (same : first state = first' state)
    (behind : ∀ value reached, first' state = .ok value reached →
      second value reached = second' value reached) :
    (first >>= second) state = (first' >>= second') state := by
  simp only [Bind.bind, EStateM.bind, same]
  cases h : first' state with
  | error error reached => rfl
  | ok value reached => exact behind value reached h

end Parser

namespace ExpressionReader

open SableSyntax.Parser (bind_eq_bind)

/-- Readers that may open any number of levels. A level is opened by a token, so that there are
never more of them than tokens ahead. -/
def unbounded : ExpressionReader where
  expression state := (withLevels state.size).expression state
  binary least state := (withLevels state.size).binary least state
  chain least left state := (withLevels state.size).chain least left state
  primary state := (withLevels state.size).primary state

/-- Two readers come to the same wherever fewer tokens than a bound are ahead. -/
structure Agree (bound : Nat) (reader other : ExpressionReader) : Prop where
  expression : ∀ state, state.size < bound → reader.expression state = other.expression state
  binary : ∀ least state, state.size < bound → reader.binary least state = other.binary least state
  chain : ∀ least left state, state.size < bound →
    reader.chain least left state = other.chain least left state
  primary : ∀ state, state.size < bound → reader.primary state = other.primary state

/-- Readers one level deeper that agree below a bound with some of those that count their levels.
Where nothing is ahead they are not called, whatever they are. -/
inductive AgreeBelow : Nat → Option ExpressionReader → Nat → Prop
  | exhausted (inner : Option ExpressionReader) (levels : Nat) : AgreeBelow 0 inner levels
  | deeper {bound levels : Nat} {reader : ExpressionReader}
    (agree : reader.Agree bound (withLevels levels)) : AgreeBelow bound (some reader) (levels + 1)

section Layers

variable {α : Type} {bound levels : Nat} {deeper : Option ExpressionReader} {state : ParserState}

theorem below_inner (levels : Nat) : Below (inner levels) levels := by
  cases levels with
  | zero => exact .none
  | succ levels => exact .some (withLevels_sound levels)

theorem descend_eq (agree : AgreeBelow bound deeper levels) {opening : Token}
    {go : ExpressionReader → Parser α} (room : state.size < bound)
    (same : ∀ reader fewer, reader.Agree bound (withLevels fewer) →
      go reader state = go (withLevels fewer) state) :
    (descend deeper opening >>= go) state = (descend (inner levels) opening >>= go) state := by
  cases agree with
  | exhausted => exact absurd room (Nat.not_lt_zero _)
  | deeper agree => exact same _ _ agree

theorem size_lt_of_peek_advance {looked behind : ParserState} {token used : Token}
    (hpeek : Parser.peek state = .ok token looked) (notEnd : token.kind ≠ .endOfInput)
    (hadvance : Parser.advance looked = .ok used behind) : behind.size < state.size := by
  obtain ⟨rest, buffered⟩ := List.head?_eq_some_iff.1 (Parser.head?_lookahead_of_peek hpeek)
  have same : used = token := by
    simp only [Parser.advance, buffered] at hadvance
    cases hadvance
    rfl
  have := Parser.size_le_of_peek hpeek
  have := Parser.size_lt_of_advance hadvance (same ▸ notEnd)
  omega

theorem primaryOver_eq (agree : AgreeBelow bound deeper levels) (small : state.size < bound + 1) :
    primaryOver deeper state = primaryOver (inner levels) state := by
  refine bind_eq_bind rfl fun token looked hpeek => ?_
  cases kind : token.kind
  case leftParen =>
    simp only [enclosed_bind]
    refine bind_eq_bind rfl fun _ behind hadvance => ?_
    have := size_lt_of_peek_advance hpeek (by simp [kind]) hadvance
    refine descend_eq agree (by omega) fun reader fewer agree => ?_
    exact bind_eq_bind (agree.expression behind (by omega)) fun _ _ _ => rfl
  all_goals rfl

theorem chainOver_eq (agree : AgreeBelow bound deeper levels) (small : state.size < bound + 1)
    (least : Precedence) (left : Expression) :
    chainOver deeper least left state = chainOver (inner levels) least left state := by
  refine bind_eq_bind rfl fun token looked hpeek => ?_
  cases isRule : token.kind.operatorRule? with
  | none => rfl
  | some rule =>
    by_cases binds : least ≤ rule.precedence
    · simp only [binds, ↓reduceIte, Parser.operations_round, linkOver_bind]
      refine bind_eq_bind rfl fun _ behind hadvance => ?_
      have notEnd : token.kind ≠ .endOfInput := by
        intro atEnd
        simp [atEnd, TokenKind.operatorRule?] at isRule
      have := size_lt_of_peek_advance hpeek notEnd hadvance
      refine descend_eq agree (by omega) fun reader fewer agree => ?_
      refine bind_eq_bind (agree.binary _ behind (by omega)) fun right last hbinary => ?_
      have operand := (withLevels_sound fewer).binary _ (rightOperand_ne_assignment isRule) behind
      have := operand.size_le hbinary
      exact agree.chain _ _ last (by omega)
    · simp only [binds, ↓reduceIte]

theorem binaryOver_eq (agree : AgreeBelow bound deeper levels) (small : state.size < bound + 1)
    (least : Precedence) :
    binaryOver deeper least state = binaryOver (inner levels) least state := by
  refine bind_eq_bind (primaryOver_eq agree small) fun left behind hprimary => ?_
  have := (primaryOver_runs (below_inner levels) state).size_le hprimary
  exact chainOver_eq agree (by omega) least left

theorem assignmentOver_eq (agree : AgreeBelow bound deeper levels) (small : state.size < bound + 1)
    {name mark : Token} {more : List LexResult} (next : state.ahead = .ok name :: .ok mark :: more)
    (target : name.kind = .identifier) (equal : mark.kind = .equal) :
    assignmentOver deeper state = assignmentOver (inner levels) state := by
  have head : state.ahead.head? = some (.ok name) := by rw [next]; rfl
  obtain ⟨behind, hname, took⟩ := Parser.advance_of_token head
  have took := took (by simp [target])
  have next' : behind.ahead = .ok mark :: more := by simpa [next] using took.ahead_eq.symm
  have head' : behind.ahead.head? = some (.ok mark) := by rw [next']; rfl
  obtain ⟨last, hmark, took'⟩ := Parser.advance_of_token head'
  have := (took.trans (took' (by simp [equal]))).size_le
  simp only [List.singleton_append, List.length_cons] at this
  refine bind_eq_bind rfl fun found reached h => ?_
  obtain ⟨rfl, rfl⟩ : name = found ∧ behind = reached := by simpa [hname] using h
  refine bind_eq_bind rfl fun found reached h => ?_
  obtain ⟨rfl, rfl⟩ : mark = found ∧ last = reached := by simpa [hmark] using h
  simp only [enclosed_bind]
  refine descend_eq agree (by omega) fun reader fewer agree => ?_
  exact bind_eq_bind (agree.expression last (by omega)) fun _ _ _ => rfl

theorem expressionOver_eq (agree : AgreeBelow bound deeper levels)
    (small : state.size < bound + 1) :
    expressionOver deeper state = expressionOver (inner levels) state := by
  refine bind_eq_bind rfl fun first looked hpeek => ?_
  have room := Parser.size_le_of_peek hpeek
  by_cases kind : first.kind = .identifier
  · simp only [kind, ↓reduceIte]
    refine bind_eq_bind rfl fun second reached hsecond => ?_
    rw [Parser.operations_peekSecond] at hsecond
    obtain ⟨rest, next⟩ := List.head?_eq_some_iff.1
      (Parser.head?_ahead_of_lookahead (Parser.head?_lookahead_of_peek hpeek))
    rcases Parser.peekSecond_cases next (by simp [kind]) with
      ⟨found, last, h, took, behind⟩ | ⟨_, _, h, -⟩
    · obtain ⟨rfl, rfl⟩ : found = second ∧ last = reached := by simpa [hsecond] using h.symm
      obtain ⟨more, rfl⟩ := List.head?_eq_some_iff.1 behind
      have := took.size_le
      by_cases equal : found.kind = .equal
      · simp only [equal, ↓reduceIte]
        have next' : last.ahead = .ok first :: .ok found :: more := by
          rw [took.ahead_eq_of_nil, next]
        exact assignmentOver_eq agree (by omega) next' kind equal
      · simp only [equal, ↓reduceIte]
        exact binaryOver_eq agree (by omega) _
    · simp [hsecond] at h
  · simp only [kind, ↓reduceIte]
    exact binaryOver_eq agree (by omega) _

theorem layer_agree (agree : AgreeBelow bound deeper levels) :
    (layer deeper).Agree (bound + 1) (withLevels levels) := by
  rw [withLevels_eq]
  exact ⟨fun _ => expressionOver_eq agree, fun least _ small => binaryOver_eq agree small least,
    fun least left _ small => chainOver_eq agree small least left, fun _ => primaryOver_eq agree⟩

end Layers

theorem withLevels_agree {bound levels levels' : Nat} (enough : bound ≤ levels + 1)
    (enough' : bound ≤ levels' + 1) : (withLevels levels').Agree bound (withLevels levels) := by
  induction bound generalizing levels levels' with
  | zero => exact ⟨by simp, by simp, by simp, by simp⟩
  | succ bound ih =>
    rw [withLevels_eq levels']
    refine layer_agree ?_
    cases levels with
    | zero =>
      obtain rfl : bound = 0 := by omega
      exact .exhausted _ _
    | succ levels =>
      cases levels' with
      | zero =>
        obtain rfl : bound = 0 := by omega
        exact .exhausted _ _
      | succ levels' => exact .deeper (ih (by omega) (by omega))

/-- Readers without a bound come to what those come to that may open as many levels as tokens are
ahead, or more. -/
theorem unbounded_agree (levels : Nat) : unbounded.Agree (levels + 1) (withLevels levels) := by
  have agree (state : ParserState) (small : state.size < levels + 1) :
      (withLevels state.size).Agree (state.size + 1) (withLevels levels) :=
    withLevels_agree small (Nat.le_refl _)
  exact ⟨fun state small => (agree state small).expression state (Nat.lt_succ_self _),
    fun _ state small => (agree state small).binary _ state (Nat.lt_succ_self _),
    fun _ _ state small => (agree state small).chain _ _ state (Nat.lt_succ_self _),
    fun state small => (agree state small).primary state (Nat.lt_succ_self _)⟩

theorem eq_unbounded_of_agree {reader : ExpressionReader}
    (agree : ∀ levels, reader.Agree (levels + 1) (withLevels levels)) : reader = unbounded := by
  have agree (state : ParserState) : reader.Agree (state.size + 1) (withLevels state.size) :=
    agree state.size
  have expression : reader.expression = unbounded.expression :=
    funext fun state => (agree state).expression state (Nat.lt_succ_self _)
  have binary : reader.binary = unbounded.binary :=
    funext fun least => funext fun state => (agree state).binary least state (Nat.lt_succ_self _)
  have chain : reader.chain = unbounded.chain := by
    funext least left state
    exact (agree state).chain least left state (Nat.lt_succ_self _)
  have primary : reader.primary = unbounded.primary :=
    funext fun state => (agree state).primary state (Nat.lt_succ_self _)
  calc
    reader = ⟨reader.expression, reader.binary, reader.chain, reader.primary⟩ := rfl
    _ = unbounded := by rw [expression, binary, chain, primary]

/-- Readers without a bound are their own next layer: they do what the others do, and a level deeper
there are the same readers again. -/
theorem unbounded_eq_layer : unbounded = layer (some unbounded) := by
  refine (eq_unbounded_of_agree fun levels => layer_agree ?_).symm
  cases levels with
  | zero => exact .exhausted _ _
  | succ levels => exact .deeper (unbounded_agree levels)

theorem eq_unbounded_of_eq_layer {reader : ExpressionReader} (same : reader = layer (some reader)) :
    reader = unbounded := by
  refine eq_unbounded_of_agree fun levels => ?_
  induction levels with
  | zero =>
    rw [same]
    exact layer_agree (.exhausted _ _)
  | succ levels ih =>
    rw [same]
    exact layer_agree (.deeper ih)

end ExpressionReader

end SableSyntax
