/- SableSyntax/Proofs/Sessions/Mirrors
   digest: Readers of sessions do what parsers do, keep their counters and lose no token. -/

import SableSyntax.Proofs.Sessions.Session

set_option autoImplicit false
set_option relaxedAutoImplicit false

namespace SableSyntax

/-- The results that a cursor gives in a number of steps, and the cursor behind them. -/
def Cursor.draws : Nat → Cursor → List LexResult × Cursor
  | 0, cursor => ([], cursor)
  | count + 1, cursor =>
    (cursor.step.1 :: (cursor.step.2.draws count).1, (cursor.step.2.draws count).2)

theorem Cursor.draws_append {cursor middle last : Cursor} {first second : List LexResult}
    (before : cursor.draws first.length = (first, middle))
    (behind : middle.draws second.length = (second, last)) :
    cursor.draws (first ++ second).length = (first ++ second, last) := by
  induction first generalizing cursor with
  | nil =>
    obtain rfl : cursor = middle := congrArg Prod.snd before
    exact behind
  | cons result first ih =>
    simp only [List.length_cons, draws, Prod.mk.injEq, List.cons.injEq] at before
    have rest := ih (Prod.ext before.1.2 before.2)
    simp only [List.cons_append, List.length_cons, draws, rest, before.1.1]

/-- Whether a fault is one of single characters and comments, which keeps a token from being
found. -/
def Fault.isLexical : Fault → Bool
  | .unrecognizedCharacter _ | .unterminatedComment => true
  | _ => false

def SyntaxError.lexical (error : SyntaxError) : List SyntaxError :=
  if error.fault.isLexical then [error] else []

theorem Cursor.isLexical_of_next {cursor reached : Cursor} {error : SyntaxError}
    (h : cursor.next = .error error reached) : error.fault.isLexical := by
  have gaps (mode : GapMode) (place : Location) (text : List Char) (error : SyntaxError)
      (reached : Cursor) (h : skipGap mode place text = .error error reached) :
      error.fault.isLexical := by
    fun_induction skipGap mode place text with
    | case1 | case5 | case6 => cases h
    | case8 =>
      cases h
      rfl
    | case2 _ _ ih | case3 _ _ ih | case9 _ _ _ ih => exact ih h
    | case4 _ _ _ _ _ _ ih | case7 _ _ _ ih | case10 _ _ _ _ _ ih => exact ih h
  unfold next at h
  split at h
  · unfold lexeme at h
    split at h
    · cases h
    · cases h
      rfl
  · next skipped =>
    cases h
    exact gaps _ _ _ _ _ skipped

namespace Session

/-- What a reader does to a session: it buffers two tokens at most if there were not more before;
it takes tokens off the text, and at the end the errors that it is told of; and it loses no token
and gives none twice, so that those used and those buffered are all that were taken. -/
structure Leads (session : Session) (errors : List SyntaxError) (reached : Session) : Prop where
  buffered : reached.lookahead.length ≤ max 2 session.lookahead.length
  history : ∃ (tokens : List Token) (fresh : List LexResult),
    fresh = tokens.map .ok ++ errors.map .error ∧
    session.cursor.draws fresh.length = (fresh, reached.cursor) ∧
    reached.drawn = session.drawn ++ fresh ∧
    reached.used ++ reached.lookahead = session.used ++ session.lookahead ++ tokens

theorem Leads.refl (session : Session) : Leads session [] session :=
  ⟨Nat.le_max_right _ _, [], [], rfl, rfl, by simp, by simp⟩

theorem Leads.trans {session middle reached : Session} {errors : List SyntaxError}
    (before : Leads session [] middle) (behind : Leads middle errors reached) :
    Leads session errors reached := by
  obtain ⟨tokens, fresh, shape, draws, drawn, kept⟩ := before.history
  obtain ⟨tokens', fresh', shape', draws', drawn', kept'⟩ := behind.history
  refine ⟨?_, tokens ++ tokens', fresh ++ fresh', ?_, Cursor.draws_append draws draws', ?_, ?_⟩
  · have := before.buffered
    have := behind.buffered
    omega
  · simp [shape, shape']
  · rw [drawn', drawn, List.append_assoc]
  · rw [kept', kept, List.append_assoc]

variable {α β : Type}

/-- A reader comes to what a parser comes to from the same state, a value or an error. It leaves
the state that the parser leaves, and what it does to the session is told by what it took off the
text; moreover `done` holds behind a value and `failed` behind an error. -/
def MirrorsAt (session : Session) (reader : Reader α) (parser : Parser α)
    (done : α → Session → Prop) (failed : Session → Prop) : Prop :=
  (∃ value reached, reader session = .ok value reached ∧
    parser session.toParserState = .ok value reached.toParserState ∧
    Leads session [] reached ∧ done value reached) ∨
  (∃ error reached, reader session = .error error reached ∧
    parser session.toParserState = .error error reached.toParserState ∧
    Leads session error.lexical reached ∧ failed reached)

namespace MirrorsAt

variable {session : Session} {reader : Reader α} {parser : Parser α}
  {done : α → Session → Prop} {failed : Session → Prop}

theorem pure {value value' : α} (same : value = value') (finished : done value session) :
    MirrorsAt session (pure value) (pure value') done failed := by
  subst same
  exact .inl ⟨value, session, rfl, rfl, .refl session, finished⟩

theorem throw {error : SyntaxError} (other : error.fault.isLexical = false)
    (stopped : failed session) : MirrorsAt session (throw error) (throw error) done failed := by
  refine .inr ⟨error, session, rfl, rfl, ?_, stopped⟩
  rw [SyntaxError.lexical, other]
  exact .refl session

theorem mono {done' : α → Session → Prop} {failed' : Session → Prop}
    (mirrors : MirrorsAt session reader parser done failed)
    (finished : ∀ value reached, done value reached → done' value reached)
    (stopped : ∀ reached, failed reached → failed' reached) :
    MirrorsAt session reader parser done' failed' := by
  rcases mirrors with ⟨value, reached, same, same', leads, holds⟩ |
    ⟨error, reached, same, same', leads, holds⟩
  · exact .inl ⟨value, reached, same, same', leads, finished value reached holds⟩
  · exact .inr ⟨error, reached, same, same', leads, stopped reached holds⟩

theorem bind {done' : β → Session → Prop} {failed' : Session → Prop} {go : α → Reader β}
    {go' : α → Parser β} (mirrors : MirrorsAt session reader parser done failed)
    (stopped : ∀ reached, failed reached → failed' reached)
    (next : ∀ value reached, done value reached →
      MirrorsAt reached (go value) (go' value) done' failed') :
    MirrorsAt session (reader >>= go) (parser >>= go') done' failed' := by
  rcases mirrors with ⟨value, middle, same, same', leads, holds⟩ |
    ⟨error, middle, same, same', leads, holds⟩
  · rcases next value middle holds with ⟨result, reached, ends, ends', leads', holds'⟩ |
      ⟨error, reached, ends, ends', leads', holds'⟩
    · refine .inl ⟨result, reached, ?_, ?_, leads.trans leads', holds'⟩
      · simp only [Bind.bind, EStateM.bind, same, ends]
      · simp only [Bind.bind, EStateM.bind, same', ends']
    · refine .inr ⟨error, reached, ?_, ?_, leads.trans leads', holds'⟩
      · simp only [Bind.bind, EStateM.bind, same, ends]
      · simp only [Bind.bind, EStateM.bind, same', ends']
  · refine .inr ⟨error, middle, ?_, ?_, leads, stopped middle holds⟩
    · simp only [Bind.bind, EStateM.bind, same]
    · simp only [Bind.bind, EStateM.bind, same']

end MirrorsAt

section Tokens

variable {levels : Nat} {session : Session} {token : Token} {error : SyntaxError} {cursor : Cursor}

theorem buffer_of_ok (next : session.cursor.next = .ok token cursor) :
    buffer session = .ok token { session with
      lookahead := session.lookahead ++ [token], cursor,
      drawn := session.drawn ++ [.ok token] } := by
  simp only [buffer, draw, next, Bind.bind, EStateM.bind]
  rfl

theorem buffer_of_error (next : session.cursor.next = .error error cursor) :
    buffer session =
      .error error { session with cursor, drawn := session.drawn ++ [.error error] } := by
  simp only [buffer, draw, next, Bind.bind, EStateM.bind]

theorem peekNth_of_buffered {place : Nat} (found : session.lookahead[place]? = some token) :
    peekNth place session = .ok token session := by
  simp only [peekNth, found]

theorem peekNth_of_missing {place : Nat} (missing : session.lookahead.length = place) :
    peekNth place session = buffer session := by
  subst missing
  simp only [peekNth, List.getElem?_eq_none (Nat.le_refl _), Nat.sub_self, bufferBehind]

theorem advance_of_buffered {rest : List Token} (ahead : session.lookahead = token :: rest) :
    advance session = .ok token { session with
      lookahead := rest, lastStop := token.span.stop, used := session.used ++ [token] } := by
  simp only [advance, take, ahead, Bind.bind, EStateM.bind]
  rfl

theorem advance_of_ok (ahead : session.lookahead = [])
    (next : session.cursor.next = .ok token cursor) :
    advance session = .ok token { session with
      cursor, drawn := session.drawn ++ [.ok token], lastStop := token.span.stop,
      used := session.used ++ [token] } := by
  simp only [advance, take, ahead, draw, next, Bind.bind, EStateM.bind]
  rfl

theorem advance_of_error (ahead : session.lookahead = [])
    (next : session.cursor.next = .error error cursor) :
    advance session =
      .error error { session with cursor, drawn := session.drawn ++ [.error error] } := by
  simp only [advance, take, ahead, draw, next, Bind.bind, EStateM.bind]

private theorem Leads.of_step {session reached : Session} {result : LexResult}
    {errors : List SyntaxError} (tokens : List Token)
    (stepped : session.cursor.step = (result, reached.cursor))
    (fresh : [result] = tokens.map .ok ++ errors.map .error)
    (buffered : reached.lookahead.length ≤ max 2 session.lookahead.length)
    (drawn : reached.drawn = session.drawn ++ [result])
    (kept : reached.used ++ reached.lookahead = session.used ++ session.lookahead ++ tokens) :
    Leads session errors reached := by
  refine ⟨buffered, tokens, [result], fresh, ?_, drawn, kept⟩
  simp only [List.length_singleton, Cursor.draws, stepped]

private theorem Leads.of_fault (fault : session.cursor.next = .error error cursor) :
    Leads session error.lexical
      { session with cursor, drawn := session.drawn ++ [.error error] } := by
  rw [SyntaxError.lexical, if_pos (Cursor.isLexical_of_next fault)]
  exact .of_step [] (Cursor.step_of_error fault) rfl (Nat.le_max_right _ _) rfl (by simp)

private theorem Leads.of_buffered (next : session.cursor.next = .ok token cursor)
    (short : session.lookahead.length ≤ 1) :
    Leads session [] { session with
      lookahead := session.lookahead ++ [token], cursor,
      drawn := session.drawn ++ [.ok token] } := by
  refine .of_step [token] (Cursor.step_of_ok next) rfl ?_ rfl (by simp)
  rw [List.length_append]
  exact Nat.le_trans (Nat.add_le_add_right short 1) (Nat.le_max_left _ _)

theorem peek_mirrorsAt (same : session.openLevels = levels) :
    MirrorsAt session peek Parser.peek
      (fun token reached => reached.openLevels = levels ∧ reached.lastStop = session.lastStop ∧
        reached.lookahead.head? = some token)
      (fun reached => reached.openLevels = levels) := by
  subst same
  cases ahead : session.lookahead with
  | cons token rest =>
    refine .inl ⟨token, session, peekNth_of_buffered (by rw [ahead]; rfl), ?_, .refl session, rfl,
      rfl, by rw [ahead]; rfl⟩
    simp only [Parser.peek, ahead]
  | nil =>
    have buffers : peek session = buffer session := peekNth_of_missing (by rw [ahead]; rfl)
    cases next : session.cursor.next with
    | ok token cursor =>
      refine .inl ⟨token, _, buffers.trans (buffer_of_ok next), ?_,
        .of_buffered next (by simp [ahead]), rfl, rfl, by simp [ahead]⟩
      simp only [Parser.peek, ahead, Parser.draw, next, List.nil_append]
    | error error cursor =>
      refine .inr ⟨error, _, buffers.trans (buffer_of_error next), ?_, .of_fault next, rfl⟩
      simp only [Parser.peek, ahead, Parser.draw, next]

theorem advance_mirrorsAt (same : session.openLevels = levels) :
    MirrorsAt session advance Parser.advance
      (fun token reached => reached.openLevels = levels ∧ reached.lastStop = token.span.stop)
      (fun reached => reached.openLevels = levels) := by
  subst same
  cases ahead : session.lookahead with
  | cons token rest =>
    have shorter : rest.length ≤ session.lookahead.length := by
      rw [ahead]
      exact Nat.le_succ _
    refine .inl ⟨token, _, advance_of_buffered ahead, ?_, ⟨Nat.le_trans shorter
      (Nat.le_max_right _ _), [], [], rfl, rfl, by simp, by simp [ahead]⟩, rfl, rfl⟩
    simp only [Parser.advance, ahead]
  | nil =>
    cases next : session.cursor.next with
    | ok token cursor =>
      refine .inl ⟨token, _, advance_of_ok ahead next, ?_, .of_step [token]
        (Cursor.step_of_ok next) rfl (Nat.le_max_right _ _) rfl (by simp [ahead]), rfl, rfl⟩
      simp only [Parser.advance, ahead, Parser.draw, next]
    | error error cursor =>
      refine .inr ⟨error, _, advance_of_error ahead next, ?_, .of_fault next, rfl⟩
      simp only [Parser.advance, ahead, Parser.draw, next]

theorem peekNth_mirrorsAt {first : Token} (same : session.openLevels = levels)
    (looked : session.lookahead.head? = some first) :
    MirrorsAt session (peekNth 1) Parser.peekSecond
      (fun _ reached => reached.openLevels = levels)
      (fun reached => reached.openLevels = levels) := by
  subst same
  obtain ⟨rest, ahead⟩ := List.head?_eq_some_iff.1 looked
  have looks : Parser.peek session.toParserState = .ok first session.toParserState := by
    simp only [Parser.peek, ahead]
  cases rest with
  | cons second more =>
    refine .inl ⟨second, session, peekNth_of_buffered (by rw [ahead]; rfl), ?_, .refl session, rfl⟩
    simp only [Parser.peekSecond, Bind.bind, EStateM.bind, looks, ahead]
  | nil =>
    have buffers : peekNth 1 session = buffer session := peekNth_of_missing (by rw [ahead]; rfl)
    cases next : session.cursor.next with
    | ok second cursor =>
      refine .inl ⟨second, _, buffers.trans (buffer_of_ok next), ?_,
        .of_buffered next (by simp [ahead]), rfl⟩
      simp only [Parser.peekSecond, Bind.bind, EStateM.bind, looks, ahead, Parser.draw, next,
        List.singleton_append]
    | error error cursor =>
      refine .inr ⟨error, _, buffers.trans (buffer_of_error next), ?_, .of_fault next, rfl⟩
      simp only [Parser.peekSecond, Bind.bind, EStateM.bind, looks, ahead, Parser.draw, next]

theorem record_mirrorsAt (event : TraceEvent) (same : session.openLevels = levels) :
    MirrorsAt session (record event) (Parser.record event)
      (fun _ reached => reached.openLevels = levels ∧ reached.lastStop = session.lastStop)
      (fun reached => reached.openLevels = levels) :=
  .inl ⟨(), { session with trace := session.trace ++ [event] }, rfl, rfl,
    ⟨Nat.le_max_right _ _, [], [], rfl, rfl, by simp, by simp⟩, same, rfl⟩

end Tokens

end Session

end SableSyntax
