/- SableSyntax/Proofs/Parsing/Parallel
   digest: Readers run in step where the results ahead of two states correspond one by one. -/

import SableSyntax.Proofs.Lexing.Steps
import SableSyntax.Proofs.Parsing.Runs

set_option autoImplicit false
set_option relaxedAutoImplicit false

namespace SableSyntax

open ParserState (Took aheadOf aheadOf_cons_of_ne)

section Faults

theorem Cursor.next_of_results_fault {cursor : Cursor} {error : SyntaxError}
    {rest : List LexResult} (same : cursor.results = .error error :: rest) :
    ∃ reached, cursor.next = .error error reached ∧ reached.results = rest := by
  cases next : cursor.next with
  | ok token reached =>
    by_cases atEnd : token.kind = .endOfInput
    · simp [results_of_end next atEnd] at same
    · simp [results_of_token next atEnd] at same
  | error found reached =>
    rw [results_of_error next, List.cons.injEq, Except.error.injEq] at same
    obtain ⟨rfl, same⟩ := same
    exact ⟨reached, rfl, same⟩

namespace Parser

variable {state : ParserState} {first : Token} {error : SyntaxError} {rest : List LexResult}

theorem peek_of_fault_cons (next : state.ahead = .error error :: rest) :
    ∃ reached, peek state = .error error reached ∧ reached.ahead = rest := by
  cases ahead : state.lookahead with
  | cons token tokens =>
    simp only [ParserState.ahead, ahead, aheadOf] at next
    split at next <;> simp at next
  | nil =>
    simp only [ParserState.ahead, ahead, aheadOf] at next
    obtain ⟨cursor, fault, same⟩ := Cursor.next_of_results_fault next
    refine ⟨{ state with cursor }, ?_, ?_⟩
    · simp only [peek, ahead, draw, fault]
    · simp only [ParserState.ahead, ahead, aheadOf, same]

theorem peekSecond_of_fault_cons (next : state.ahead = .ok first :: .error error :: rest)
    (notEnd : first.kind ≠ .endOfInput) :
    ∃ reached, peekSecond state = .error error reached ∧ reached.ahead = .ok first :: rest := by
  obtain ⟨middle, looks, took, buffered⟩ := peek_of_token (by rw [next]; rfl)
  rw [← took.ahead_eq_of_nil] at next
  obtain ⟨tokens, ahead⟩ := List.head?_eq_some_iff.1 buffered
  simp only [ParserState.ahead, ahead, aheadOf_cons_of_ne notEnd, List.cons.injEq, true_and] at next
  cases tokens with
  | cons second tokens =>
    simp only [aheadOf] at next
    split at next <;> simp at next
  | nil =>
    obtain ⟨cursor, fault, same⟩ := Cursor.next_of_results_fault next
    refine ⟨{ middle with cursor }, ?_, ?_⟩
    · simp only [peekSecond, bind, EStateM.bind, looks, ahead, draw, fault]
    · simp only [ParserState.ahead, ahead, aheadOf_cons_of_ne notEnd, aheadOf, same]

end Parser

end Faults

structure Correspondence where
  Related : LexResult → LexResult → Prop
  same : ∀ {result result' : LexResult}, Related result result' →
    LexResult.unplaced result = LexResult.unplaced result'

namespace Correspondence

variable (rel : Correspondence)

def Ahead (state state' : ParserState) : Prop := List.Forall₂ rel.Related state.ahead state'.ahead

/-- Errors that say the same and lie with results that correspond. -/
def Blames (error error' : SyntaxError) : Prop :=
  error.fault = error'.fault ∧ ∃ result result', rel.Related result result' ∧
    error.span = LexResult.span result ∧ error'.span = LexResult.span result'

variable {rel} {α β γ δ : Type}

theorem toLexeme_eq {token token' : Token} (h : rel.Related (.ok token) (.ok token')) :
    token.toLexeme = token'.toLexeme :=
  Except.ok.inj (rel.same h)

theorem blames_token {token token' : Token} {fault fault' : Fault}
    (h : rel.Related (.ok token) (.ok token')) (same : fault = fault') :
    rel.Blames ⟨fault, token.span⟩ ⟨fault', token'.span⟩ :=
  ⟨same, _, _, h, rfl, rfl⟩

theorem blames_unexpected {token token' : Token} (h : rel.Related (.ok token) (.ok token'))
    (expected : Expected) (construct : Construct) :
    rel.Blames (.unexpected token expected construct) (.unexpected token' expected construct) := by
  refine ⟨?_, _, _, h, SyntaxError.span_unexpected _ _ _, SyntaxError.span_unexpected _ _ _⟩
  have same := toLexeme_eq h
  unfold SyntaxError.unexpected
  simp only [same]
  split <;> simp_all

theorem blames_fault {error error' : SyntaxError}
    (h : rel.Related (.error error) (.error error')) : rel.Blames error error' :=
  ⟨Except.error.inj (rel.same h), _, _, h, rfl, rfl⟩

theorem ok_left {token : Token} {result : LexResult} (h : rel.Related (.ok token) result) :
    ∃ token', result = .ok token' := by
  cases result with
  | ok token' => exact ⟨token', rfl⟩
  | error error =>
    have same := rel.same h
    simp [LexResult.unplaced] at same

theorem error_left {error : SyntaxError} {result : LexResult}
    (h : rel.Related (.error error) result) : ∃ error', result = .error error' := by
  cases result with
  | error error' => exact ⟨error', rfl⟩
  | ok token =>
    have same := rel.same h
    simp [LexResult.unplaced] at same

/-- Two readers come to the same from two states: to values with one view, or to errors that say the
same of results that correspond; and the results that are left ahead correspond again. -/
def InStep (rel : Correspondence) (view : α → γ) (parser parser' : Parser α)
    (state state' : ParserState) : Prop :=
  (∃ value value' reached reached', parser state = .ok value reached ∧
    parser' state' = .ok value' reached' ∧ view value = view value' ∧
    rel.Ahead reached reached') ∨
  (∃ error error' reached reached', parser state = .error error reached ∧
    parser' state' = .error error' reached' ∧ rel.Blames error error' ∧
    rel.Ahead reached reached')

/-- Two readers run in step wherever the results ahead correspond. -/
def Parallel (rel : Correspondence) (view : α → γ) (parser parser' : Parser α) : Prop :=
  ∀ state state', rel.Ahead state state' → rel.InStep view parser parser' state state'

section Rules

variable {view : α → γ} {view' : β → δ} {parser parser' : Parser α} {state state' : ParserState}

theorem InStep.ahead_step (h : rel.InStep view parser parser' state state') :
    rel.Ahead (parser.step state).2 (parser'.step state').2 := by
  rcases h with ⟨_, _, reached, reached', read, read', -, ahead⟩ |
    ⟨_, _, reached, reached', read, read', -, ahead⟩
  all_goals simpa only [Parser.step, read, read'] using ahead

theorem InStep.pure {value value' : α} (same : view value = view value')
    (ahead : rel.Ahead state state') : rel.InStep view (pure value) (pure value') state state' :=
  .inl ⟨value, value', state, state', rfl, rfl, same, ahead⟩

theorem InStep.throw {error error' : SyntaxError} (blames : rel.Blames error error')
    (ahead : rel.Ahead state state') : rel.InStep view (throw error) (throw error') state state' :=
  .inr ⟨error, error', state, state', rfl, rfl, blames, ahead⟩

theorem InStep.bind {go go' : α → Parser β} (h : rel.InStep view parser parser' state state')
    (next : ∀ value value', view value = view value' →
      rel.Parallel view' (go value) (go' value')) :
    rel.InStep view' (parser >>= go) (parser' >>= go') state state' := by
  rcases h with ⟨value, value', middle, middle', read, read', same, ahead⟩ |
    ⟨error, error', middle, middle', read, read', blames, ahead⟩
  · rcases next value value' same middle middle' ahead with
      ⟨result, result', last, last', ends, ends', same', ahead'⟩ |
      ⟨error, error', last, last', ends, ends', blames, ahead'⟩
    · refine .inl ⟨result, result', last, last', ?_, ?_, same', ahead'⟩
      · simp only [Bind.bind, EStateM.bind, read, ends]
      · simp only [Bind.bind, EStateM.bind, read', ends']
    · refine .inr ⟨error, error', last, last', ?_, ?_, blames, ahead'⟩
      · simp only [Bind.bind, EStateM.bind, read, ends]
      · simp only [Bind.bind, EStateM.bind, read', ends']
  · refine .inr ⟨error, error', middle, middle', ?_, ?_, blames, ahead⟩
    · simp only [Bind.bind, EStateM.bind, read]
    · simp only [Bind.bind, EStateM.bind, read']

theorem Parallel.pure {value value' : α} (same : view value = view value') :
    rel.Parallel view (pure value) (pure value') :=
  fun _ _ => .pure same

theorem Parallel.throw {error error' : SyntaxError} (blames : rel.Blames error error') :
    rel.Parallel view (throw error) (throw error') :=
  fun _ _ => .throw blames

theorem Parallel.bind {go go' : α → Parser β} (h : rel.Parallel view parser parser')
    (next : ∀ value value', view value = view value' →
      rel.Parallel view' (go value) (go' value')) :
    rel.Parallel view' (parser >>= go) (parser' >>= go') :=
  fun state state' ahead => (h state state' ahead).bind next

end Rules

structure Next (rel : Correspondence) (token token' : Token) (state state' : ParserState) :
    Prop where
  related : rel.Related (.ok token) (.ok token')
  head : state.ahead.head? = some (.ok token)
  head' : state'.ahead.head? = some (.ok token')
  ahead : rel.Ahead state state'

section Tokens

variable {view : α → γ} {state state' : ParserState} {token token' : Token}

theorem Next.toLexeme (h : rel.Next token token' state state') :
    token.toLexeme = token'.toLexeme := toLexeme_eq h.related

theorem Next.kind (h : rel.Next token token' state state') : token'.kind = token.kind :=
  congrArg Lexeme.kind h.toLexeme.symm

theorem peek_bind_inStep {go go' : Token → Parser α} (ahead : rel.Ahead state state')
    (next : ∀ token token' reached reached', reached.ahead = state.ahead →
      rel.Next token token' reached reached' →
      rel.InStep view (go token) (go' token') reached reached') :
    rel.InStep view (Parser.peek >>= go) (Parser.peek >>= go') state state' := by
  unfold Ahead at ahead
  generalize front : state.ahead = results at ahead
  generalize front' : state'.ahead = results' at ahead
  cases ahead with
  | nil => exact absurd front state.ahead_ne_nil
  | @cons result result' rest rest' related more =>
    cases result with
    | ok token =>
      obtain ⟨token', rfl⟩ := ok_left related
      obtain ⟨reached, looks, took, -⟩ := Parser.peek_of_token (by rw [front]; rfl)
      obtain ⟨reached', looks', took', -⟩ := Parser.peek_of_token (by rw [front']; rfl)
      have same := took.ahead_eq_of_nil.trans front
      have same' := took'.ahead_eq_of_nil.trans front'
      have goes := next token token' reached reached' took.ahead_eq_of_nil ⟨related,
        by rw [same]; rfl, by rw [same']; rfl, by rw [Ahead, same, same']; exact .cons related more⟩
      simpa only [InStep, Bind.bind, EStateM.bind, looks, looks'] using goes
    | error error =>
      obtain ⟨error', rfl⟩ := error_left related
      obtain ⟨reached, looks, same⟩ := Parser.peek_of_fault_cons front
      obtain ⟨reached', looks', same'⟩ := Parser.peek_of_fault_cons front'
      refine .inr ⟨error, error', reached, reached', ?_, ?_, blames_fault related, ?_⟩
      · simp only [Bind.bind, EStateM.bind, looks]
      · simp only [Bind.bind, EStateM.bind, looks']
      · rwa [Ahead, same, same']

theorem advance_bind_inStep {go go' : Token → Parser α} (h : rel.Next token token' state state')
    (notEnd : token.kind ≠ .endOfInput)
    (next : ∀ reached reached', state.ahead = .ok token :: reached.ahead →
      state'.ahead = .ok token' :: reached'.ahead → rel.Ahead reached reached' →
      rel.InStep view (go token) (go' token') reached reached') :
    rel.InStep view (Parser.advance >>= go) (Parser.advance >>= go') state state' := by
  obtain ⟨reached, uses, took⟩ := Parser.advance_of_token h.head
  obtain ⟨reached', uses', took'⟩ := Parser.advance_of_token h.head'
  have same := (took notEnd).ahead_eq
  have same' := (took' (h.kind ▸ notEnd)).ahead_eq
  have ahead := h.ahead
  rw [Ahead, same, same'] at ahead
  cases ahead with
  | cons _ more =>
    have goes := next reached reached' same same' more
    simpa only [InStep, Bind.bind, EStateM.bind, uses, uses'] using goes

theorem advance_inStep (h : rel.Next token token' state state')
    (notEnd : token.kind ≠ .endOfInput) :
    rel.InStep Token.toLexeme Parser.advance Parser.advance state state' := by
  rw [← bind_pure Parser.advance]
  exact advance_bind_inStep h notEnd fun _ _ _ _ ahead => .pure h.toLexeme ahead

theorem peekSecond_bind_inStep {go go' : Token → Parser α} (h : rel.Next token token' state state')
    (notEnd : token.kind ≠ .endOfInput)
    (next : ∀ second second' reached reached' more more',
      reached.ahead = .ok token :: .ok second :: more →
      reached'.ahead = .ok token' :: .ok second' :: more' →
      rel.Related (.ok second) (.ok second') → rel.Next token token' reached reached' →
      rel.InStep view (go second) (go' second') reached reached') :
    rel.InStep view (Parser.peekSecond >>= go) (Parser.peekSecond >>= go') state state' := by
  obtain ⟨rest, front⟩ := List.head?_eq_some_iff.1 h.head
  obtain ⟨rest', front'⟩ := List.head?_eq_some_iff.1 h.head'
  have ahead := h.ahead
  have notEnd' : token'.kind ≠ .endOfInput := h.kind ▸ notEnd
  rw [Ahead, front, front'] at ahead
  cases ahead with
  | cons related more =>
    cases more with
    | nil =>
      rcases Parser.peekSecond_cases front notEnd with ⟨_, _, _, _, behind⟩ | ⟨_, _, _, behind⟩
      all_goals cases behind
    | @cons result result' rest rest' related' more =>
      cases result with
      | ok second =>
        obtain ⟨second', rfl⟩ := ok_left related'
        obtain ⟨reached, looks, took⟩ := Parser.peekSecond_of_token front notEnd
        obtain ⟨reached', looks', took'⟩ := Parser.peekSecond_of_token front' notEnd'
        have same := took.ahead_eq_of_nil.trans front
        have same' := took'.ahead_eq_of_nil.trans front'
        have goes := next second second' reached reached' rest rest' same same' related'
          ⟨related, by rw [same]; rfl, by rw [same']; rfl,
            by rw [Ahead, same, same']; exact .cons related (.cons related' more)⟩
        simpa only [InStep, Bind.bind, EStateM.bind, looks, looks'] using goes
      | error error =>
        obtain ⟨error', rfl⟩ := error_left related'
        obtain ⟨reached, looks, same⟩ := Parser.peekSecond_of_fault_cons front notEnd
        obtain ⟨reached', looks', same'⟩ := Parser.peekSecond_of_fault_cons front' notEnd'
        refine .inr ⟨error, error', reached, reached', ?_, ?_, blames_fault related', ?_⟩
        · simp only [Bind.bind, EStateM.bind, looks]
        · simp only [Bind.bind, EStateM.bind, looks']
        · rw [Ahead, same, same']
          exact .cons related more

theorem expect_parallel {kind : TokenKind} (notEnd : kind ≠ .endOfInput) (construct : Construct) :
    rel.Parallel Token.toLexeme (Parser.expect kind construct) (Parser.expect kind construct) := by
  refine fun state state' ahead => peek_bind_inStep ahead fun token token' middle middle' _ h => ?_
  rw [h.kind]
  split
  · next same => exact advance_inStep h (same ▸ notEnd)
  · exact .throw (blames_unexpected h.related _ _) h.ahead

theorem record_bind_parallel {event event' : TraceEvent} {go go' : Unit → Parser α}
    (next : rel.Parallel view (go ()) (go' ())) :
    rel.Parallel view (Parser.record event >>= go) (Parser.record event' >>= go') :=
  fun state state' ahead => next { state with trace := state.trace ++ [event] }
    { state' with trace := state'.trace ++ [event'] } ahead

end Tokens

section Repetition

variable {view : α → γ} {test : Token → Bool} {item : Parser α} {rule : List Token → α → Prop}
  {cut : List Token → Prop}

theorem repeatWhile_parallel
    (runs : ∀ state token, state.ahead.head? = some (.ok token) → test token →
      item.Runs state (fun used value _ => rule used value) cut)
    (nonempty : ∀ used value, rule used value → used ≠ [])
    (respects : ∀ token token' : Token, token.toLexeme = token'.toLexeme →
      test token = test token')
    (reads : ∀ token token' state state', rel.Next token token' state state' → test token →
      rel.InStep view item item state state') :
    rel.Parallel (List.map view) (Parser.repeatWhile test item)
      (Parser.repeatWhile test item) := by
  intro state state' ahead
  -- An item takes a token at least, so less is left to read behind it.
  induction hlength : state.ahead.length using Nat.strongRecOn generalizing state state' with
  | ind length ih =>
    subst hlength
    rw [Parser.repeatWhile_eq_of_runs runs nonempty]
    refine peek_bind_inStep ahead fun token token' middle middle' same h => ?_
    rw [respects token' token h.toLexeme.symm]
    split
    · next passes =>
      rcases reads token token' middle middle' h passes with
        ⟨value, value', reached, reached', read, read', same', ahead'⟩ |
        ⟨error, error', reached, reached', read, read', blames, ahead'⟩
      · have taken := runs middle token h.head passes
        simp only [Parser.Runs, read] at taken
        obtain ⟨used, took, derived, -⟩ := taken
        have shorter : reached.ahead.length < state.ahead.length := by
          have := List.length_pos_iff.2 (nonempty used value derived)
          rw [← same, took.ahead_eq, List.length_append, List.length_map]
          omega
        have goes : rel.InStep (List.map view)
            (Parser.repeatWhile test item >>= fun rest => Pure.pure (value :: rest))
            (Parser.repeatWhile test item >>= fun rest => Pure.pure (value' :: rest))
            reached reached' :=
          (ih _ shorter reached reached' ahead' rfl).bind fun rest rest' same'' =>
            .pure (congrArg₂ List.cons same' same'')
        simpa only [InStep, Bind.bind, EStateM.bind, read, read'] using goes
      · refine .inr ⟨error, error', reached, reached', ?_, ?_, blames, ahead'⟩
        · simp only [Bind.bind, EStateM.bind, read]
        · simp only [Bind.bind, EStateM.bind, read']
    · exact .pure rfl h.ahead

end Repetition

end Correspondence

end SableSyntax
