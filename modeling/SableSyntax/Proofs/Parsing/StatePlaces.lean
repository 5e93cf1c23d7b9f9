/- SableSyntax/Proofs/Parsing/StatePlaces
   digest: Whatever is called in whatever order, all that is ahead of a reader lies in its text. -/

import SableSyntax.Proofs.Lexing.Steps
import SableSyntax.Proofs.Parsing.Ahead
import SableSyntax.Proofs.Parsing.Invariants

set_option autoImplicit false
set_option relaxedAutoImplicit false

namespace SableSyntax

/-- Whether a reader stands in a text: its cursor does, and the tokens it has buffered lie in the
text, one behind the other and none of them behind the cursor. -/
structure ParserState.IsIn (text : List Char) (state : ParserState) : Prop where
  cursor : state.cursor.IsIn text
  buffered : LaidOut text 0 (state.lookahead.map .ok)
  passed : ∀ token ∈ state.lookahead, token.span.stop.offset ≤ state.cursor.location.offset

namespace ParserState

variable {text : List Char} {state : ParserState} {cursor : Cursor}

theorem isIn_ofText (source : String) : (ofText source).IsIn source.toList :=
  ⟨Cursor.isIn_ofText source, .nil, List.forall_mem_nil _⟩

namespace IsIn

theorem move {result : LexResult} (h : state.IsIn text)
    (stepped : state.cursor.step = (result, cursor)) : IsIn text { state with cursor } := by
  have advances := h.cursor.advances stepped
  have ordered := advances.span.ordered
  refine ⟨advances.isIn, h.buffered, fun token member => ?_⟩
  calc
    token.span.stop.offset ≤ state.cursor.location.offset := h.passed token member
    _ ≤ result.span.start.offset := advances.starts
    _ ≤ result.span.stop.offset := ordered
    _ = cursor.location.offset := advances.stops

theorem buffer {token : Token} (h : state.IsIn text)
    (stepped : state.cursor.step = (.ok token, cursor)) :
    IsIn text { state with lookahead := state.lookahead ++ [token], cursor } := by
  have advances := h.cursor.advances stepped
  have moved := h.move stepped
  refine ⟨moved.cursor, ?_, ?_⟩
  · rw [List.map_append]
    refine h.buffered.append (.cons advances.span advances.starts .nil) (Nat.zero_le _) ?_
    simpa [LexResult.span] using h.passed
  · simp only [List.forall_mem_append, List.forall_mem_singleton]
    exact ⟨moved.passed, Nat.le_of_eq advances.stops⟩

theorem unbuffer {token : Token} {rest : List Token} (h : state.IsIn text)
    (buffered : state.lookahead = token :: rest) : IsIn text { state with lookahead := rest } := by
  have all : LaidOut text 0 ([.ok token] ++ rest.map .ok) := by simpa [buffered] using h.buffered
  refine ⟨h.cursor, all.of_append.2, fun other member => h.passed other ?_⟩
  rw [buffered]
  exact List.mem_cons_of_mem _ member

theorem stable (text : List Char) : Stable (IsIn text) :=
  .of_steady (.of_steps (fun h next => h.move (Cursor.step_of_error next))
    (fun h next => h.move (Cursor.step_of_ok next))
    (fun h next => h.buffer (Cursor.step_of_ok next)) (fun h => h.unbuffer))
    fun _ h => ⟨h.cursor, h.buffered, h.passed⟩

end IsIn

theorem isPrefix_aheadOf (tokens : List Token) (results : List LexResult) :
    aheadOf tokens results <+: tokens.map .ok ++ results := by
  induction tokens with
  | nil => exact List.prefix_rfl
  | cons token tokens ih =>
    unfold aheadOf
    split
    · exact ⟨_, rfl⟩
    · simpa using ih

theorem stable_buffered {holds : Token → Prop}
    (each : ∀ (cursor : Cursor) token reached, cursor.next = .ok token reached → holds token) :
    Stable fun state => ∀ token ∈ state.lookahead, holds token := by
  refine .of_steady (.of_steps (fun h _ => h) (fun h _ => h) ?_ ?_) fun _ h => h
  · intro state token cursor h next
    exact List.forall_mem_append.2 ⟨h, List.forall_mem_singleton.2 (each _ _ _ next)⟩
  · intro state token rest h ahead other member
    exact h other (ahead ▸ List.mem_cons_of_mem _ member)

theorem forall_mem_ahead {holds : Token → Prop}
    (each : ∀ (cursor : Cursor) token reached, cursor.next = .ok token reached → holds token)
    (buffered : ∀ token ∈ state.lookahead, holds token) {token : Token}
    (member : .ok token ∈ state.ahead) : holds token := by
  have all := (isPrefix_aheadOf state.lookahead state.cursor.results).subset member
  rcases List.mem_append.1 all with listed | listed
  · exact buffered token ((List.mem_map_of_injective fun _ _ => Except.ok.inj).1 listed)
  · obtain ⟨cursor, reached, next⟩ := Cursor.exists_next_of_mem_results listed
    exact each cursor token reached next

theorem IsIn.laidOut_ahead (h : state.IsIn text) : LaidOut text 0 state.ahead := by
  have all := h.buffered.append h.cursor.laidOut_results (Nat.zero_le _)
    (by simpa [LexResult.span] using h.passed)
  obtain ⟨rest, same⟩ := isPrefix_aheadOf state.lookahead state.cursor.results
  rw [← same] at all
  exact all.of_append.1

end ParserState

end SableSyntax
