/- SableSyntax/Proofs/Sessions/Termination
   digest: Every call comes to an end, within bounds on rounds and on activations. -/

import SableSyntax.Proofs.Sessions.Activations
import SableSyntax.Proofs.Sessions.Streams

set_option autoImplicit false
set_option relaxedAutoImplicit false

namespace SableSyntax

namespace Watched

open Session (peek advance record)

variable {α β : Type} {rounds calls least further : Nat} {watched reached : Watched}

/-- Between two routines: none is at work, no level is open, and there is room for more rounds than
tokens are ahead. -/
structure Idle (rounds : Nat) (watched : Watched) : Prop where
  active : watched.active = []
  closed : watched.openLevels = 0
  room : watched.size < rounds

theorem Idle.kept (idle : Idle rounds watched) (kept : Kept watched reached)
    (closed : reached.openLevels = 0) : Idle rounds reached :=
  ⟨kept.active.trans idle.active, closed, Nat.lt_of_le_of_lt kept.size_le idle.room⟩

theorem Idle.ready (idle : Idle rounds watched) (enough : maxNesting < calls) :
    Ready rounds calls watched where
  descends := idle.active ▸ ⟨.nil, nofun⟩
  within := idle.active ▸ nofun
  levels := idle.closed ▸ Nat.zero_le _
  calls := Nat.lt_add_right _ enough
  rounds := idle.room

theorem Idle.fresh (idle : Idle rounds watched) (routine : Routine) : Fresh routine watched := by
  intro earlier member
  rw [idle.active] at member
  cases member

/-- A number of tokens at least was used from one session to another, and no level is open. -/
structure Uses (least : Nat) (session reached : Session) : Prop where
  closed : reached.openLevels = 0
  used : session.used.length + least ≤ reached.used.length

theorem Uses.kept {session : Session} (kept : Kept watched reached)
    (uses : Uses least reached.toSession session) : Uses least watched.toSession session :=
  ⟨uses.closed, Nat.le_trans (Nat.add_le_add_right kept.used least) uses.used⟩

/-- A reader is tracked wherever no routine is at work, and behind a value it has used a number of
tokens at least. -/
def Tracks (rounds least : Nat) (reader : Reader α) (mirror : Session.Reader α) : Prop :=
  ∀ watched, Idle rounds watched →
    TracksAt watched reader mirror fun _ session => Uses least watched.toSession session

theorem TracksAt.weaken {reader : Reader α} {mirror : Session.Reader α}
    (tracks : TracksAt watched reader mirror fun _ session => Uses least watched.toSession session)
    (le : further ≤ least) :
    TracksAt watched reader mirror fun _ session => Uses further watched.toSession session :=
  tracks.mono fun _ _ uses =>
    ⟨uses.closed, Nat.le_trans (Nat.add_le_add_left le _) uses.used⟩

theorem TracksAt.uses {reader : Reader α} {mirror : Session.Reader α}
    (tracks : TracksAt watched reader mirror fun _ session => session.openLevels = 0) :
    TracksAt watched reader mirror fun _ session => Uses 0 watched.toSession session := by
  obtain ⟨outcome, reached, run, same, kept, finished⟩ := tracks
  exact ⟨outcome, reached, run, same, kept, fun value h => ⟨finished value h, kept.used⟩⟩

theorem TracksAt.bind_tracks {reader : Reader α} {mirror : Session.Reader α} {go : α → Reader β}
    {go' : α → Session.Reader β} (idle : Idle rounds watched)
    (tracks : TracksAt watched reader mirror fun _ session => Uses least watched.toSession session)
    (next : ∀ value, Tracks rounds further (go value) (go' value)) :
    TracksAt watched (reader >>= go) (mirror >>= go') fun _ session =>
      Uses (least + further) watched.toSession session := by
  refine tracks.bind fun value middle kept uses => ?_
  refine (next value middle (idle.kept kept uses.closed)).mono fun _ _ uses' => ⟨uses'.closed, ?_⟩
  have := uses.used
  have := uses'.used
  omega

namespace Tracks

variable {reader : Reader α} {mirror : Session.Reader α}

theorem pure (value : α) : Tracks rounds 0 (pure value) (pure value) :=
  fun _ idle => .pure ⟨idle.closed, Nat.le_refl _⟩

theorem weaken (tracks : Tracks rounds least reader mirror) (le : further ≤ least) :
    Tracks rounds further reader mirror :=
  fun watched idle => (tracks watched idle).weaken le

theorem bind {go : α → Reader β} {go' : α → Session.Reader β}
    (tracks : Tracks rounds least reader mirror)
    (next : ∀ value, Tracks rounds further (go value) (go' value)) :
    Tracks rounds (least + further) (reader >>= go) (mirror >>= go') :=
  fun watched idle => (tracks watched idle).bind_tracks idle next

end Tracks

section Tokens

theorem expect_tracks {kind : TokenKind} (notEnd : kind ≠ .endOfInput) (construct : Construct) :
    Tracks rounds 1 ((operations rounds).expect kind construct)
      (Session.operations.expect kind construct) := by
  intro watched idle
  refine (expect_tracksAt notEnd construct).mono ?_
  rintro _ session ⟨levels, used⟩
  exact ⟨levels.trans idle.closed, used⟩

theorem record_tracks (event : TraceEvent) :
    Tracks rounds 0 (lift (record event)) (record event) :=
  fun _ idle => ((record_tracksAt event).mono fun _ _ levels => levels.trans idle.closed).uses

theorem spanFrom_tracks (first last : Span) :
    Tracks rounds 0 ((operations rounds).spanFrom first last)
      (Session.operations.spanFrom first last) := by
  intro watched idle
  refine TracksAt.uses ((spanFrom_tracksAt first last).mono ?_)
  rintro _ session same
  rw [same]
  exact idle.closed

theorem peek_bind_tracks {go : Token → Reader α} {go' : Token → Session.Reader α}
    (next : ∀ token watched, Idle rounds watched → watched.lookahead.head? = some token →
      TracksAt watched (go token) (go' token) fun _ session =>
        Uses least watched.toSession session) :
    Tracks rounds least (lift peek >>= go) (peek >>= go') := by
  intro watched idle
  refine peek_tracksAt.bind ?_
  rintro token reached kept ⟨levels, looked⟩
  have closed := levels.trans idle.closed
  exact (next token reached (idle.kept kept closed) looked).mono fun _ _ => .kept kept

theorem advance_looked_tracksAt {token : Token} (idle : Idle rounds watched)
    (looked : watched.lookahead.head? = some token) (notEnd : token.kind ≠ .endOfInput) :
    TracksAt watched (lift advance) advance fun _ session =>
      Uses 1 watched.toSession session := by
  obtain ⟨rest, ahead⟩ := List.head?_eq_some_iff.1 looked
  refine (advance_tracksAt ahead notEnd).mono ?_
  rintro _ session ⟨-, -, levels, used⟩
  exact ⟨levels.trans idle.closed, used.ge⟩

end Tokens

section Loops

variable {loop : Loop} {test : Token → Bool} {item : Reader α} {item' : Session.Reader α}

/-- A loop comes to its end in as many rounds as it reads items, each of which uses a token, however
few rounds more than tokens ahead there may be. -/
theorem repeatBounded_tracksAt
    (items : ∀ token watched, Idle rounds watched → watched.lookahead.head? = some token →
      test token → TracksAt watched item item' fun _ session => Uses 1 watched.toSession session)
    {bound bound' : Nat} (idle : Idle rounds watched) (room : watched.size < bound)
    (room' : watched.size < bound') :
    TracksAt watched (repeatWhile loop test item bound) (Session.repeatBounded test item' bound')
      fun _ session => session.openLevels = 0 := by
  induction bound generalizing watched bound' with
  | zero => exact absurd room (Nat.not_lt_zero _)
  | succ bound ih =>
    cases bound' with
    | zero => exact absurd room' (Nat.not_lt_zero _)
    | succ bound' =>
      refine peek_tracksAt.bind ?_
      rintro token looked kept ⟨levels, head⟩
      have closed := levels.trans idle.closed
      by_cases passes : test token
      · simp only [passes, ↓reduceIte]
        have idle := idle.kept kept closed
        have first := (items token looked idle head passes).mono fun _ _ uses =>
          And.intro uses.used uses.closed
        refine (round_tracksAt first).bind ?_
        rintro value behind kept' ⟨used, closed'⟩
        have fewer : behind.size < looked.size := by
          have := kept'.spent
          omega
        have := kept.size_le
        refine (ih (idle.kept kept' closed') (by omega) (by omega)).bind ?_
        exact fun rest _ _ closed => .pure closed
      · simp only [passes, Bool.false_eq_true, ↓reduceIte]
        exact .pure closed

theorem round_tracks (tracks : Tracks rounds 1 item item') :
    Tracks rounds 1 (round loop item) item' := by
  intro watched idle
  have used := (tracks watched idle).mono fun _ _ uses => And.intro uses.used uses.closed
  exact (round_tracksAt used).mono fun _ _ holds => ⟨holds.2, holds.1⟩

theorem repeatWhile_tracks
    (items : ∀ token watched, Idle rounds watched → watched.lookahead.head? = some token →
      test token → TracksAt watched item item' fun _ session => Uses 1 watched.toSession session) :
    Tracks rounds 0 (repeatWhile loop test item rounds) (Session.repeatWhile test item') :=
  fun watched idle => TracksAt.uses
    (repeatBounded_tracksAt items idle idle.room (Nat.lt_succ_self watched.size))

end Loops

section Programs

theorem identifier_tracks (construct : Construct) :
    Tracks rounds 1 ((operations rounds).identifier construct)
      (Session.operations.identifier construct) :=
  (expect_tracks (by decide) _).bind fun _ => .pure _

theorem typeExpr_tracks :
    Tracks rounds 1 (operations rounds).typeExpr Session.operations.typeExpr := by
  refine (identifier_tracks _).bind fun base => (repeatWhile_tracks ?_).bind fun marks =>
    (spanFrom_tracks _ _).bind fun span => .pure _
  intro token watched idle looked star
  exact advance_looked_tracksAt idle looked (by simp [eq_of_beq star])

theorem parameter_tracks :
    Tracks rounds 1 (operations rounds).parameter Session.operations.parameter := by
  refine Tracks.weaken ?_ (by decide : 1 ≤ 3)
  exact (identifier_tracks _).bind fun _ => (expect_tracks (by decide) _).bind fun _ =>
    typeExpr_tracks.bind fun _ => (spanFrom_tracks _ _).bind fun _ => .pure _

theorem furtherParameter_tracksAt (token : Token) (watched : Watched) (idle : Idle rounds watched)
    (looked : watched.lookahead.head? = some token) (comma : token.kind == .comma) :
    TracksAt watched (operations rounds).furtherParameter Session.operations.furtherParameter
      fun _ session => Uses 1 watched.toSession session := by
  have mark := advance_looked_tracksAt idle looked (by simp [eq_of_beq comma])
  exact (mark.bind_tracks idle fun _ => parameter_tracks).weaken (Nat.le_succ 1)

theorem parameterList_tracks :
    Tracks rounds 0 (operations rounds).parameterList Session.operations.parameterList := by
  refine peek_bind_tracks fun token watched idle _ => ?_
  split
  · exact Tracks.pure _ watched idle
  · exact ((round_tracks parameter_tracks).bind fun first =>
      (repeatWhile_tracks furtherParameter_tracksAt).bind fun rest =>
        Tracks.pure _).weaken (Nat.zero_le _) watched idle

theorem declaredType_tracks :
    Tracks rounds 0 (operations rounds).declaredType Session.operations.declaredType := by
  refine peek_bind_tracks fun token watched idle looked => ?_
  split
  · next colon =>
    have mark := advance_looked_tracksAt idle looked (by simp [colon])
    exact (mark.bind_tracks idle fun _ => typeExpr_tracks.bind fun _ => Tracks.pure _).weaken
      (Nat.zero_le _)
  · exact Tracks.pure _ watched idle

theorem initializerMark_tracks (name : String) :
    Tracks rounds 1 ((operations rounds).initializerMark name)
      (Session.operations.initializerMark name) := by
  refine peek_bind_tracks fun token watched idle looked => ?_
  cases kind : token.kind
  case equal => exact advance_looked_tracksAt idle looked (by simp [kind])
  all_goals exact .throw

theorem programSpan_tracks (first : Token) (functions : List Function) :
    Tracks rounds 0 ((operations rounds).programSpan first functions)
      (Session.operations.programSpan first functions) := by
  unfold Operations.programSpan
  cases functions.getLast? with
  | none => exact .pure _
  | some last => exact spanFrom_tracks _ _

section Expressions

variable {expression : Reader Expression} {expression' : Session.Reader Expression}
  (inside : Tracks rounds 0 expression expression')

include inside

theorem variableDeclaration_tracks :
    Tracks rounds 1 ((operations rounds).variableDeclaration expression)
      (Session.operations.variableDeclaration expression') := by
  refine Tracks.weaken ?_ (by decide : 1 ≤ 4)
  exact (expect_tracks (by decide) _).bind fun _ => (identifier_tracks _).bind fun _ =>
    declaredType_tracks.bind fun _ => (initializerMark_tracks _).bind fun _ =>
      inside.bind fun _ => (expect_tracks (by decide) _).bind fun _ =>
        (spanFrom_tracks _ _).bind fun _ => .pure _

theorem expressionStatement_tracks :
    Tracks rounds 1 ((operations rounds).expressionStatement expression)
      (Session.operations.expressionStatement expression') :=
  inside.bind fun _ => (expect_tracks (by decide) _).bind fun _ =>
    (spanFrom_tracks _ _).bind fun _ => .pure _

theorem statement_tracks : Tracks rounds 1 ((operations rounds).statement expression)
    (Session.operations.statement expression') := by
  refine peek_bind_tracks fun token watched idle _ => ?_
  split
  · exact variableDeclaration_tracks inside watched idle
  · exact expressionStatement_tracks inside watched idle

theorem block_tracks : Tracks rounds 0 ((operations rounds).block expression)
    (Session.operations.block expression') := by
  refine Tracks.weaken ?_ (Nat.zero_le 2)
  exact (expect_tracks (by decide) _).bind fun _ => (record_tracks _).bind fun _ =>
    (repeatWhile_tracks fun _ watched idle _ _ => statement_tracks inside watched idle).bind
      fun _ => (expect_tracks (by decide) _).bind fun _ => .pure _

theorem functionBody_tracks : Tracks rounds 0 ((operations rounds).functionBody expression)
    (Session.operations.functionBody expression') := by
  refine peek_bind_tracks fun token watched idle looked => ?_
  cases kind : token.kind
  case leftBrace => exact ((block_tracks inside).bind fun _ => Tracks.pure _) watched idle
  case semicolon =>
    have mark := advance_looked_tracksAt idle looked (by simp [kind])
    exact (mark.bind_tracks idle fun _ => Tracks.pure _).weaken (Nat.zero_le _)
  all_goals exact .throw

theorem function_tracks : Tracks rounds 1 ((operations rounds).function expression)
    (Session.operations.function expression') := by
  refine Tracks.weaken ?_ (by decide : 1 ≤ 6)
  exact (expect_tracks (by decide) _).bind fun _ => (identifier_tracks _).bind fun _ =>
    (record_tracks _).bind fun _ => (expect_tracks (by decide) _).bind fun _ =>
      parameterList_tracks.bind fun _ => (expect_tracks (by decide) _).bind fun _ =>
        (expect_tracks (by decide) _).bind fun _ => typeExpr_tracks.bind fun _ =>
          (functionBody_tracks inside).bind fun _ => (spanFrom_tracks _ _).bind fun _ => .pure _

theorem program_tracks : Tracks rounds 0 ((operations rounds).program expression)
    (Session.operations.program expression') := by
  refine peek_bind_tracks fun first watched idle _ => ?_
  refine ((repeatWhile_tracks fun _ watched idle _ _ =>
    function_tracks inside watched idle).bind fun functions =>
      (peek_bind_tracks fun next watched idle _ => ?_ : Tracks rounds 0 _ _)) watched idle
  split
  · exact ((record_tracks _).bind fun _ => (programSpan_tracks first functions).bind fun _ =>
      Tracks.pure _) watched idle
  · exact .throw

end Expressions

section Readers

variable (beyond : Session.Readers) (enough : maxNesting < calls)

include enough

theorem expression_tracks :
    Tracks rounds 0 (unrolled rounds calls).expression beyond.top.expression := by
  intro watched idle
  have tracks := (unrolled_track beyond rounds calls).expression watched (idle.ready enough)
    idle.fresh
  rw [idle.closed] at tracks
  exact tracks.uses

theorem binary_tracks (least : Precedence) :
    Tracks rounds 0 ((unrolled rounds calls).binary least) (beyond.top.binary least) := by
  intro watched idle
  have tracks := (unrolled_track beyond rounds calls).binary least watched (idle.ready enough)
    (idle.fresh _)
  rw [idle.closed] at tracks
  exact tracks.uses

theorem primary_tracks :
    Tracks rounds 0 (unrolled rounds calls).primary beyond.top.primary := by
  intro watched idle
  have tracks := (unrolled_track beyond rounds calls).primary watched (idle.ready enough)
  rw [idle.closed] at tracks
  exact tracks.uses

theorem reader_tracks (call : Parser.Call) :
    Tracks rounds 0 (reader rounds calls call) (Session.reader beyond call) := by
  have inside : Tracks rounds 0 _ _ := expression_tracks beyond enough
  cases call with
  | program => exact program_tracks inside
  | function => exact (function_tracks inside).weaken (Nat.zero_le _)
  | parameterList => exact parameterList_tracks
  | parameter => exact parameter_tracks.weaken (Nat.zero_le _)
  | block => exact block_tracks inside
  | statement => exact (statement_tracks inside).weaken (Nat.zero_le _)
  | variableDeclaration => exact (variableDeclaration_tracks inside).weaken (Nat.zero_le _)
  | expressionStatement => exact (expressionStatement_tracks inside).weaken (Nat.zero_le _)
  | typeExpr => exact typeExpr_tracks.weaken (Nat.zero_le _)
  | expression => exact inside
  | binary least => exact binary_tracks beyond enough least
  | primary => exact primary_tracks beyond enough

end Readers

end Programs

/-- Every call comes to an end, whatever was called before and whether it failed or not, in no more
rounds of any loop than there are tokens and characters ahead, and in no more activations of any
routine at once than there are numbers of levels that may be open. Each round that comes to its end
has used a token. Of the activations of one routine that are at work at once, each was entered with
more levels open than the one before, and behind more tokens. -/
theorem calls_end_within_bounds (beyond : Session.Readers) (source : String)
    (earlier : List Parser.Call) (call : Parser.Call) : ∃ outcome reached,
      reader ((Session.after beyond earlier (.ofText source)).size + 1) (maxNesting + 1) call
        (.ofSession (Session.after beyond earlier (.ofText source))) = some (outcome, reached) ∧
      Session.step (Session.reader beyond call) (Session.after beyond earlier (.ofText source)) =
        (outcome, reached.toSession) ∧
      call.reader.step (Parser.after earlier (.ofText source)) =
        (outcome, reached.toParserState) ∧
      (∀ round ∈ reached.rounds, round.before < round.behind) ∧
      ∀ chain ∈ reached.chains, ∀ routine,
        (activationsOf routine chain).Pairwise Activation.Behind ∧
        (∀ activation ∈ activationsOf routine chain, activation.openLevels ≤ maxNesting) ∧
        (activationsOf routine chain).length ≤ maxNesting + 1 := by
  have settled := Session.settled_after beyond earlier (Session.settled_ofText source)
  set session := Session.after beyond earlier (.ofText source) with after
  have idle : Idle (session.size + 1) (.ofSession session) :=
    ⟨rfl, settled.closed, Nat.lt_succ_self _⟩
  obtain ⟨outcome, reached, run, same, kept, -⟩ :=
    reader_tracks beyond (Nat.lt_succ_self maxNesting) call _ idle
  have descends (chain : List Activation) (member : chain ∈ reached.chains) : Descends chain :=
    kept.chains nofun chain member
  have parsed := (Session.step_answers beyond call settled.closed).same
  rw [show Session.step (Session.reader beyond call) session = _ from same, after,
    Session.toParserState_after beyond earlier (Session.settled_ofText source)] at parsed
  refine ⟨outcome, reached, run, same, parsed, kept.rounds nofun, fun chain member routine => ?_⟩
  refine ⟨pairwise_activationsOf (descends chain member) routine, fun activation used => ?_,
    length_activationsOf_le (descends chain member) routine⟩
  exact (descends chain member).bounded activation (List.mem_of_mem_filter used)

/-- What is in parentheses is read by activations that were entered one level deeper. -/
example : ((reader 4 2 .expression (.ofSession (.ofText "(x)"))).bind (·.2.chains.getLast?)) =
    some [⟨.binary, 1, 1⟩, ⟨.expression, 1, 1⟩, ⟨.binary, 0, 0⟩, ⟨.expression, 0, 0⟩] := by
  decide +kernel

end Watched

end SableSyntax
