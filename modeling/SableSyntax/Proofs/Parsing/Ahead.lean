/- SableSyntax/Proofs/Parsing/Ahead
   digest: A reader's state seen as the results ahead of it, whatever part of them is buffered. -/

import SableSyntax.Proofs.Lexing.TokenStream

set_option autoImplicit false
set_option relaxedAutoImplicit false

namespace SableSyntax

namespace ParserState

/-- Buffered tokens and the results behind them. Nothing is behind the end of the text, which the
text gives again and again. -/
def aheadOf : List Token → List LexResult → List LexResult
  | [], results => results
  | token :: tokens, results =>
    if token.kind = .endOfInput then [.ok token] else .ok token :: aheadOf tokens results

/-- All results that a reader has not used, looked at or not. -/
def ahead (state : ParserState) : List LexResult :=
  aheadOf state.lookahead state.cursor.results

@[simp] theorem ahead_ofText (source : String) :
    (ofText source).ahead = (Cursor.ofText source).results := rfl

theorem aheadOf_cons_of_ne {token : Token} (notEnd : token.kind ≠ .endOfInput)
    (tokens : List Token) (results : List LexResult) :
    aheadOf (token :: tokens) results = .ok token :: aheadOf tokens results := by
  simp [aheadOf, notEnd]

theorem ahead_ne_nil (state : ParserState) : state.ahead ≠ [] := by
  unfold ahead
  cases state.lookahead with
  | nil => exact Cursor.results_ne_nil _
  | cons token tokens =>
    unfold aheadOf
    split <;> simp

theorem ahead_eq_of_end {state : ParserState} {stop : Token}
    (next : state.ahead.head? = some (.ok stop)) (atEnd : stop.kind = .endOfInput) :
    state.ahead = [.ok stop] := by
  unfold ahead at next ⊢
  cases hahead : state.lookahead with
  | cons token tokens =>
    simp only [hahead, aheadOf] at next ⊢
    split at next
    all_goals obtain rfl : token = stop := by simpa using next
    · simp [atEnd]
    · contradiction
  | nil =>
    obtain ⟨body, last, same, -, others⟩ := state.cursor.exists_results_eq_append_end
    simp only [hahead, aheadOf, same] at next ⊢
    cases body with
    | nil => simpa using next
    | cons result body =>
      obtain rfl : result = .ok stop := by simpa using next
      exact absurd atEnd (others stop List.mem_cons_self)

/-- Some tokens stood ahead of a state and are used up in another one. -/
structure Took (state : ParserState) (used : List Token) (reached : ParserState) : Prop where
  ahead_eq : state.ahead = used.map .ok ++ reached.ahead
  size_le : reached.size + used.length ≤ state.size

namespace Took

theorem refl (state : ParserState) : Took state [] state := ⟨rfl, Nat.le_refl _⟩

theorem trans {state middle reached : ParserState} {first second : List Token}
    (before : Took state first middle) (after : Took middle second reached) :
    Took state (first ++ second) reached where
  ahead_eq := by simp [before.ahead_eq, after.ahead_eq]
  size_le := by
    have := before.size_le
    have := after.size_le
    rw [List.length_append]
    omega

theorem ahead_eq_of_nil {state reached : ParserState} (h : Took state [] reached) :
    reached.ahead = state.ahead := by
  simpa using h.ahead_eq.symm

end Took

def SameAhead (count : Nat) (state other : ParserState) : Prop :=
  state.ahead.take count = other.ahead.take count

namespace SameAhead

variable {count : Nat} {state other reached last : ParserState}

theorem of_le {more : Nat} (h : SameAhead more state other) (le : count ≤ more) :
    SameAhead count state other := by
  have := congrArg (List.take count) h
  simpa only [SameAhead, List.take_take, Nat.min_eq_left le] using this

theorem head? (h : SameAhead (count + 1) state other) :
    state.ahead.head? = other.ahead.head? := by
  have := congrArg List.head? h
  simpa only [List.head?_take, Nat.add_one_ne_zero, ↓reduceIte] using this

theorem exists_append {front rest : List LexResult} (h : SameAhead count state other)
    (same : state.ahead = front ++ rest) (le : front.length ≤ count) :
    ∃ rest', other.ahead = front ++ rest' := by
  have := h.of_le le
  simp only [SameAhead, same, List.take_left] at this
  exact List.prefix_iff_eq_take.2 this |>.imp fun _ => Eq.symm

theorem of_append {front rest rest' : List LexResult} (same : state.ahead = front ++ rest)
    (same' : other.ahead = front ++ rest') : SameAhead front.length state other := by
  rw [SameAhead, same, same', List.take_left, List.take_left]

theorem behind {used : List Token} (h : SameAhead (used.length + count) state other)
    (took : Took state used reached) (took' : Took other used last) :
    SameAhead count reached last := by
  have taken : (used.map Except.ok : List LexResult).length = used.length := List.length_map _
  simpa only [SameAhead, took.ahead_eq, took'.ahead_eq, ← taken, List.take_length_add_append,
    List.append_cancel_left_eq] using h

theorem behind_nil (h : SameAhead count state other) (took : Took state [] reached)
    (took' : Took other [] last) : SameAhead count reached last := by
  simpa only [SameAhead, took.ahead_eq_of_nil, took'.ahead_eq_of_nil] using h

end SameAhead

end ParserState

namespace Parser

open ParserState (Took aheadOf aheadOf_cons_of_ne)

variable {α : Type}

theorem draw_cases (state : ParserState) :
    (∃ token cursor, draw state = .ok token { state with cursor } ∧
      state.cursor.next = .ok token cursor) ∨
    (∃ error cursor, draw state = .error error { state with cursor } ∧
      state.cursor.next = .error error cursor) := by
  unfold draw
  cases hnext : state.cursor.next with
  | ok token cursor => exact .inl ⟨token, cursor, rfl, rfl⟩
  | error error cursor => exact .inr ⟨error, cursor, rfl, rfl⟩

theorem peek_cases (state : ParserState) :
    (∃ token reached, peek state = .ok token reached ∧ Took state [] reached ∧
      reached.lookahead.head? = some token ∧ state.ahead.head? = some (.ok token)) ∨
    (∃ error reached, peek state = .error error reached ∧
      state.ahead.head? = some (.error error)) := by
  have size := @size_le_of_peek state
  unfold peek at size ⊢
  cases hahead : state.lookahead with
  | cons token tokens =>
    refine .inl ⟨token, state, by simp, .refl state, by simp [hahead], ?_⟩
    simp only [ParserState.ahead, hahead, aheadOf]
    split <;> rfl
  | nil =>
    simp only [hahead] at size ⊢
    rcases draw_cases state with ⟨token, cursor, hdraw, hnext⟩ | ⟨error, cursor, hdraw, hnext⟩
    · simp only [hdraw] at size ⊢
      refine .inl ⟨token, _, rfl, ⟨?_, size rfl⟩, rfl, ?_⟩
      all_goals
        by_cases atEnd : token.kind = .endOfInput
        · simp [ParserState.ahead, hahead, aheadOf, atEnd, Cursor.results_of_end hnext atEnd]
        · simp [ParserState.ahead, hahead, aheadOf, atEnd, Cursor.results_of_token hnext atEnd]
    · simp only [hdraw]
      refine .inr ⟨error, _, rfl, ?_⟩
      simp [ParserState.ahead, hahead, aheadOf, Cursor.results_of_error hnext]

theorem advance_cases (state : ParserState) :
    (∃ token reached, advance state = .ok token reached ∧
      state.ahead.head? = some (.ok token) ∧
      (token.kind ≠ .endOfInput → Took state [token] reached)) ∨
    (∃ error reached, advance state = .error error reached ∧
      state.ahead.head? = some (.error error)) := by
  have size := @size_lt_of_advance state
  unfold advance at size ⊢
  cases hahead : state.lookahead with
  | cons token tokens =>
    simp only [hahead] at size ⊢
    refine .inl ⟨token, _, rfl, ?_, fun notEnd => ⟨?_, size rfl notEnd⟩⟩
    · simp only [ParserState.ahead, hahead, aheadOf]
      split <;> rfl
    · simp [ParserState.ahead, hahead, aheadOf, notEnd]
  | nil =>
    simp only [hahead] at size ⊢
    rcases draw_cases state with ⟨token, cursor, hdraw, hnext⟩ | ⟨error, cursor, hdraw, hnext⟩
    · simp only [hdraw] at size ⊢
      refine .inl ⟨token, _, rfl, ?_, fun notEnd => ⟨?_, size rfl notEnd⟩⟩
      · by_cases atEnd : token.kind = .endOfInput
        · simp [ParserState.ahead, hahead, aheadOf, Cursor.results_of_end hnext atEnd]
        · simp [ParserState.ahead, hahead, aheadOf, Cursor.results_of_token hnext atEnd]
      · simp [ParserState.ahead, hahead, aheadOf, Cursor.results_of_token hnext notEnd]
    · simp only [hdraw]
      refine .inr ⟨error, _, rfl, ?_⟩
      simp [ParserState.ahead, hahead, aheadOf, Cursor.results_of_error hnext]

section Forward

variable {state : ParserState} {token : Token} {error : SyntaxError}

theorem peek_of_token (next : state.ahead.head? = some (.ok token)) :
    ∃ reached, peek state = .ok token reached ∧ Took state [] reached ∧
      reached.lookahead.head? = some token := by
  rcases peek_cases state with ⟨found, reached, hpeek, took, buffered, next'⟩ | ⟨_, _, _, next'⟩
  · obtain rfl : found = token := by simpa [next] using next'.symm
    exact ⟨reached, hpeek, took, buffered⟩
  · simp [next] at next'

theorem peek_of_fault (next : state.ahead.head? = some (.error error)) :
    ∃ reached, peek state = .error error reached := by
  rcases peek_cases state with ⟨_, _, _, _, _, next'⟩ | ⟨found, reached, hpeek, next'⟩
  · simp [next] at next'
  · obtain rfl : found = error := by simpa [next] using next'.symm
    exact ⟨reached, hpeek⟩

theorem advance_of_token (next : state.ahead.head? = some (.ok token)) :
    ∃ reached, advance state = .ok token reached ∧
      (token.kind ≠ .endOfInput → Took state [token] reached) := by
  rcases advance_cases state with ⟨found, reached, hadvance, next', took⟩ | ⟨_, _, _, next'⟩
  · obtain rfl : found = token := by simpa [next] using next'.symm
    exact ⟨reached, hadvance, took⟩
  · simp [next] at next'

end Forward

private theorem size_le_of_buffering {state : ParserState} {first second : Token}
    {cursor : Cursor} (hahead : state.lookahead = [first])
    (hnext : state.cursor.next = .ok second cursor) :
    ParserState.size { state with lookahead := [first, second], cursor } ≤ state.size := by
  have hdraw : draw state = .ok second { state with cursor } := by simp [draw, hnext]
  have ⟨_, hrest⟩ := rest_length_le_of_draw hdraw
  simp only [ParserState.size, hahead, List.countP_cons, List.countP_nil, bne_iff_ne, ne_eq]
  split at hrest <;> simp_all <;> omega

theorem peekSecond_cases {state : ParserState} {first : Token} {rest : List LexResult}
    (next : state.ahead = .ok first :: rest) (notEnd : first.kind ≠ .endOfInput) :
    (∃ second reached, peekSecond state = .ok second reached ∧ Took state [] reached ∧
      rest.head? = some (.ok second)) ∨
    (∃ error reached, peekSecond state = .error error reached ∧
      rest.head? = some (.error error)) := by
  rcases peek_cases state with
    ⟨token, middle, hpeek, took, hhead, hfirst⟩ | ⟨error, middle, -, hfirst⟩
  · obtain rfl : first = token := by simpa [next] using hfirst
    have same : middle.ahead = .ok first :: rest := by rw [took.ahead_eq_of_nil, next]
    simp only [peekSecond, bind, EStateM.bind, hpeek]
    match hahead : middle.lookahead with
    | [] => simp [hahead] at hhead
    | [only] =>
      obtain rfl : only = first := by simpa [hahead] using hhead
      obtain rfl : middle.cursor.results = rest := by
        simpa [ParserState.ahead, hahead, aheadOf, notEnd] using same
      rcases draw_cases middle with ⟨second, cursor, hdraw, hnext⟩ | ⟨error, cursor, hdraw, hnext⟩
      · simp only [hdraw]
        have size := size_le_of_buffering hahead hnext
        refine .inl ⟨second, _, rfl, took.trans ⟨?_, size⟩, ?_⟩
        all_goals
          by_cases atEnd : second.kind = .endOfInput
          · simp [ParserState.ahead, hahead, aheadOf, notEnd, atEnd,
              Cursor.results_of_end hnext atEnd]
          · simp [ParserState.ahead, hahead, aheadOf, notEnd, atEnd,
              Cursor.results_of_token hnext atEnd]
      · simp only [hdraw]
        exact .inr ⟨error, _, rfl, by simp [Cursor.results_of_error hnext]⟩
    | buffered :: second :: more =>
      obtain rfl : buffered = first := by simpa [hahead] using hhead
      refine .inl ⟨second, middle, rfl, took, ?_⟩
      have hrest : aheadOf (second :: more) middle.cursor.results = rest := by
        simpa [ParserState.ahead, hahead, aheadOf_cons_of_ne notEnd] using same
      rw [← hrest, aheadOf]
      split <;> rfl
  · simp [next] at hfirst

theorem peekSecond_of_token {state : ParserState} {first second : Token} {rest : List LexResult}
    (next : state.ahead = .ok first :: .ok second :: rest) (notEnd : first.kind ≠ .endOfInput) :
    ∃ reached, peekSecond state = .ok second reached ∧ Took state [] reached := by
  rcases peekSecond_cases next notEnd with ⟨found, reached, hpeek, took, next'⟩ | ⟨_, _, _, next'⟩
  · obtain rfl : second = found := by simpa using next'
    exact ⟨reached, hpeek, took⟩
  · simp at next'

theorem peekSecond_of_fault {state : ParserState} {first : Token} {error : SyntaxError}
    {rest : List LexResult} (next : state.ahead = .ok first :: .error error :: rest)
    (notEnd : first.kind ≠ .endOfInput) :
    ∃ reached, peekSecond state = .error error reached := by
  rcases peekSecond_cases next notEnd with ⟨_, _, _, _, next'⟩ | ⟨found, reached, hpeek, next'⟩
  · simp at next'
  · obtain rfl : error = found := by simpa using next'
    exact ⟨reached, hpeek⟩

end Parser

end SableSyntax
