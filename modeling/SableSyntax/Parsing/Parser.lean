/- SableSyntax/Parsing/Parser
   digest: Readers of a token stream that look at most two tokens ahead. -/

import SableSyntax.Lexing.Cursor
import SableSyntax.Parsing.Routines

set_option autoImplicit false
set_option relaxedAutoImplicit false

namespace SableSyntax

/-- A text being read: the tokens taken off it but not yet used, and the rest of it. -/
structure ParserState where
  lookahead : List Token
  cursor : Cursor
  trace : List TraceEvent
  deriving DecidableEq, Repr

namespace ParserState

def ofText (source : String) : ParserState := ⟨[], .ofText source, []⟩

/-- A bound on the tokens ahead, the end of the text not counted. -/
def size (state : ParserState) : Nat :=
  state.lookahead.countP (·.kind != .endOfInput) + state.cursor.rest.length

end ParserState

/-- A reader uses tokens and gives a result, or fails and leaves the tokens it did not use. -/
abbrev Parser := EStateM SyntaxError ParserState

namespace Parser

variable {α : Type}

def step (parser : Parser α) (state : ParserState) : Except SyntaxError α × ParserState :=
  match parser state with
  | .ok value state => (.ok value, state)
  | .error error state => (.error error, state)

def runOn (parser : Parser α) (source : String) : Except SyntaxError α :=
  (parser.step (.ofText source)).1

def draw : Parser Token := fun state =>
  match state.cursor.next with
  | .ok token cursor => .ok token { state with cursor }
  | .error error cursor => .error error { state with cursor }

def peek : Parser Token := fun state =>
  match state.lookahead with
  | token :: _ => .ok token state
  | [] =>
    match draw state with
    | .ok token state => .ok token { state with lookahead := [token] }
    | .error error state => .error error state

def peekSecond : Parser Token := do
  let first ← peek
  fun state =>
    match state.lookahead with
    | _ :: second :: _ => .ok second state
    | _ =>
      match draw state with
      | .ok second state => .ok second { state with lookahead := [first, second] }
      | .error error state => .error error state

def advance : Parser Token := fun state =>
  match state.lookahead with
  | token :: rest => .ok token { state with lookahead := rest }
  | [] => draw state

def record (event : TraceEvent) : Parser Unit :=
  modify fun state => { state with trace := state.trace ++ [event] }

def repeatBounded (test : Token → Bool) (item : Parser α) : Nat → Parser (List α)
  | 0 => return []
  | bound + 1 => do
    let token ← peek
    if test token then
      let first ← item
      let rest ← repeatBounded test item bound
      return first :: rest
    else return []

/-- Reads items while the next token passes a test. An item uses a token at least, so that there
are never more items than tokens ahead. -/
def repeatWhile (test : Token → Bool) (item : Parser α) : Parser (List α) := fun state =>
  repeatBounded test item (state.size + 1) state

/-- What parsers are put together from. They count no levels, and a stretch ends where the last part
of it does. -/
def operations : Operations Parser where
  peek := peek
  peekSecond := peekSecond
  advance := advance
  record := record
  repeatWhile _ := repeatWhile
  round _ reader := reader
  enter _ reader := reader
  restoring reader := reader
  spanFrom first last := return first.through last

section Operations

@[simp] theorem operations_peek : operations.peek = peek := rfl

@[simp] theorem operations_peekSecond : operations.peekSecond = peekSecond := rfl

@[simp] theorem operations_advance : operations.advance = advance := rfl

@[simp] theorem operations_record : operations.record = record := rfl

@[simp] theorem operations_repeatWhile (loop : Loop) (test : Token → Bool) (item : Parser α) :
    operations.repeatWhile loop test item = repeatWhile test item := rfl

@[simp] theorem operations_round (loop : Loop) (reader : Parser α) :
    operations.round loop reader = reader := rfl

@[simp] theorem operations_enter (routine : Routine) (reader : Parser α) :
    operations.enter routine reader = reader := rfl

@[simp] theorem operations_restoring (reader : Parser α) : operations.restoring reader = reader :=
  rfl

@[simp] theorem operations_spanFrom (first last : Span) :
    operations.spanFrom first last = return first.through last := rfl

end Operations

def expect (kind : TokenKind) (construct : Construct) : Parser Token :=
  operations.expect kind construct

theorem rest_length_le_of_draw {state reached : ParserState} {token : Token}
    (h : draw state = .ok token reached) :
    reached.lookahead = state.lookahead ∧
      reached.cursor.rest.length + (if token.kind = .endOfInput then 0 else 1) ≤
        state.cursor.rest.length := by
  unfold draw at h
  split at h
  · next hnext =>
    cases h
    refine ⟨rfl, ?_⟩
    split
    · exact Cursor.rest_length_le_of_next hnext
    · exact Cursor.rest_length_lt_of_next hnext ‹_›
  · cases h

theorem head?_lookahead_of_peek {state reached : ParserState} {token : Token}
    (h : peek state = .ok token reached) : reached.lookahead.head? = some token := by
  unfold peek at h
  split at h
  · next hahead =>
    cases h
    simp [hahead]
  · split at h <;> cases h
    rfl

theorem size_le_of_peek {state reached : ParserState} {token : Token}
    (h : peek state = .ok token reached) : reached.size ≤ state.size := by
  unfold peek at h
  split at h
  · cases h
    exact Nat.le_refl _
  · next hahead =>
    split at h
    · next hdraw =>
      cases h
      have ⟨_, hrest⟩ := rest_length_le_of_draw hdraw
      simp only [ParserState.size, hahead, List.countP_cons, List.countP_nil, bne_iff_ne, ne_eq,
        ite_not, Nat.zero_add]
      omega
    · cases h

theorem size_lt_of_advance {state reached : ParserState} {token : Token}
    (h : advance state = .ok token reached) (notEnd : token.kind ≠ .endOfInput) :
    reached.size < state.size := by
  unfold advance at h
  split at h
  · next hahead =>
    cases h
    simp [ParserState.size, hahead, notEnd]
  · have ⟨hahead, hrest⟩ := rest_length_le_of_draw h
    simp only [notEnd, ↓reduceIte] at hrest
    simp only [ParserState.size, hahead]
    omega

private theorem repeatBounded_congr {test : Token → Bool} {item : Parser α}
    (progress : ∀ {state reached : ParserState} {token : Token} {value : α},
      state.lookahead.head? = some token → test token → item state = .ok value reached →
        reached.size < state.size) {state : ParserState} {bound bound' : Nat}
    (h : state.size < bound) (h' : state.size < bound') :
    repeatBounded test item bound state = repeatBounded test item bound' state := by
  induction bound generalizing bound' state with
  | zero => omega
  | succ bound ih =>
    cases bound' with
    | zero => omega
    | succ bound' =>
      simp only [repeatBounded, bind, EStateM.bind]
      cases hpeek : peek state with
      | error => rfl
      | ok token ahead =>
        have := size_le_of_peek hpeek
        by_cases htest : test token
        · simp only [htest, ↓reduceIte]
          cases hitem : item ahead with
          | error => simp [EStateM.bind, hitem]
          | ok first reached =>
            have := progress (head?_lookahead_of_peek hpeek) htest hitem
            have hrest : repeatBounded test item bound reached =
                repeatBounded test item bound' reached := ih (by omega) (by omega)
            simp [EStateM.bind, hitem, hrest]
        · simp [htest]

/-- What repeated reading amounts to, for items that use a token at least. -/
theorem repeatWhile_eq {test : Token → Bool} {item : Parser α}
    (progress : ∀ {state reached : ParserState} {token : Token} {value : α},
      state.lookahead.head? = some token → test token → item state = .ok value reached →
        reached.size < state.size) :
    repeatWhile test item = (do
      let token ← peek
      if test token then
        let first ← item
        let rest ← repeatWhile test item
        return first :: rest
      else return []) := by
  funext state
  simp only [repeatWhile, repeatBounded, bind, EStateM.bind]
  cases hpeek : peek state with
  | error => rfl
  | ok token ahead =>
    have := size_le_of_peek hpeek
    by_cases htest : test token
    · simp only [htest, ↓reduceIte]
      cases hitem : item ahead with
      | error => simp [EStateM.bind, hitem]
      | ok first reached =>
        have := progress (head?_lookahead_of_peek hpeek) htest hitem
        have hrest : repeatBounded test item state.size reached =
            repeatBounded test item (reached.size + 1) reached :=
          repeatBounded_congr progress (by omega) (by omega)
        simp [EStateM.bind, hitem, hrest, repeatWhile]
    · simp [htest]

/-- Whether a reader leaves states with a property in states with it, whether it gives a value or
fails. -/
def Preserves (invariant : ParserState → Prop) (parser : Parser α) : Prop :=
  ∀ state, invariant state → invariant (parser.step state).2

namespace Preserves

variable {β : Type} {invariant : ParserState → Prop}

theorem pure (value : α) : Preserves invariant (pure value) := fun _ => id

theorem throw (error : SyntaxError) : Preserves invariant (throw error : Parser α) := fun _ => id

theorem bind {first : Parser α} {second : α → Parser β} (before : Preserves invariant first)
    (behind : ∀ value, Preserves invariant (second value)) :
    Preserves invariant (first >>= second) := by
  intro state h
  have middle := before state h
  simp only [step, Bind.bind, EStateM.bind] at middle ⊢
  cases hfirst : first state with
  | error error reached => simpa only [hfirst] using middle
  | ok value reached =>
    simp only [hfirst] at middle
    exact behind value reached middle

private theorem repeatBounded {test : Token → Bool} {item : Parser α}
    (looks : Preserves invariant peek) (reads : Preserves invariant item) (bound : Nat) :
    Preserves invariant (repeatBounded test item bound) := by
  induction bound with
  | zero => exact .pure _
  | succ bound ih =>
    refine looks.bind fun token => ?_
    split
    · exact reads.bind fun _ => ih.bind fun _ => .pure _
    · exact .pure _

theorem repeatWhile {test : Token → Bool} {item : Parser α} (looks : Preserves invariant peek)
    (reads : Preserves invariant item) : Preserves invariant (repeatWhile test item) :=
  fun state => Preserves.repeatBounded looks reads _ state

end Preserves

end Parser

end SableSyntax
