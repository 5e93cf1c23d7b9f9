/- SableSyntax/Proofs/Sessions/Tracking
   digest: Watched readers do what readers of sessions do, within their bounds. -/

import SableSyntax.Proofs.Sessions.Mirrors
import SableSyntax.Proofs.Sessions.Watched

set_option autoImplicit false
set_option relaxedAutoImplicit false

namespace SableSyntax

/-- An activation is entered deeper and further on than an earlier one. -/
def Activation.Behind (later earlier : Activation) : Prop :=
  earlier.openLevels < later.openLevels ∧ earlier.used < later.used

/-- Activations, the last one first, of which those of one routine were entered deeper and further
on each time, and never with more levels open than there may be. -/
structure Descends (chain : List Activation) : Prop where
  ordered : chain.Pairwise fun later earlier =>
    later.routine = earlier.routine → later.Behind earlier
  bounded : ∀ activation ∈ chain, activation.openLevels ≤ maxNesting

namespace Watched

variable {α β : Type}

section Sequences

variable {watched middle : Watched} {reader : Reader α} {go : α → Reader β}

theorem bind_of_ok {value : α} (run : reader watched = some (.ok value, middle)) :
    (reader >>= go) watched = go value middle := by
  simp only [Bind.bind, ExceptT.bind, ExceptT.mk, StateT.bind, run, Option.bind_some]
  rfl

theorem bind_of_error {error : SyntaxError} (run : reader watched = some (.error error, middle)) :
    (reader >>= go) watched = some (.error error, middle) := by
  simp only [Bind.bind, ExceptT.bind, ExceptT.mk, StateT.bind, run, Option.bind_some]
  rfl

variable {mirror : Session.Reader α} {go' : α → Session.Reader β} {session reached : Session}

theorem step_of_ok {value : α} (read : mirror session = .ok value reached) :
    Session.step mirror session = (.ok value, reached) := by
  rw [Session.step, read]

theorem step_of_error {error : SyntaxError} (failed : mirror session = .error error reached) :
    Session.step mirror session = (.error error, reached) := by
  rw [Session.step, failed]

theorem step_bind_of_ok {value : α} (stepped : Session.step mirror session = (.ok value, reached)) :
    Session.step (mirror >>= go') session = Session.step (go' value) reached := by
  unfold Session.step at stepped ⊢
  simp only [Bind.bind, EStateM.bind]
  split at stepped <;> simp_all

theorem step_bind_of_error {error : SyntaxError}
    (stepped : Session.step mirror session = (.error error, reached)) :
    Session.step (mirror >>= go') session = (.error error, reached) := by
  unfold Session.step at stepped ⊢
  simp only [Bind.bind, EStateM.bind]
  split at stepped <;> simp_all

end Sequences

/-- What a run keeps to: it leaves every routine that it enters, it takes tokens only from what is
ahead, and its account stays in order. -/
structure Kept (watched reached : Watched) : Prop where
  active : reached.active = watched.active
  used : watched.used.length ≤ reached.used.length
  spent : reached.size + reached.used.length ≤ watched.size + watched.used.length
  rounds : (∀ round ∈ watched.rounds, round.before < round.behind) →
    ∀ round ∈ reached.rounds, round.before < round.behind
  chains : (∀ chain ∈ watched.chains, Descends chain) → ∀ chain ∈ reached.chains, Descends chain

theorem Kept.refl (watched : Watched) : Kept watched watched :=
  ⟨rfl, Nat.le_refl _, Nat.le_refl _, id, id⟩

theorem Kept.trans {watched middle reached : Watched} (before : Kept watched middle)
    (behind : Kept middle reached) : Kept watched reached where
  active := behind.active.trans before.active
  used := Nat.le_trans before.used behind.used
  spent := Nat.le_trans behind.spent before.spent
  rounds h := behind.rounds (before.rounds h)
  chains h := behind.chains (before.chains h)

theorem Kept.size_le {watched reached : Watched} (kept : Kept watched reached) :
    reached.size ≤ watched.size := by
  have := kept.used
  have := kept.spent
  omega

/-- A watched reader comes to what a reader of sessions comes to, a value or an error, and never to
nothing; moreover `done` holds behind a value. -/
def TracksAt (watched : Watched) (reader : Reader α) (mirror : Session.Reader α)
    (done : α → Session → Prop) : Prop :=
  ∃ (outcome : Except SyntaxError α) (reached : Watched),
    reader watched = some (outcome, reached) ∧
    Session.step mirror watched.toSession = (outcome, reached.toSession) ∧ Kept watched reached ∧
    ∀ value, outcome = .ok value → done value reached.toSession

namespace TracksAt

variable {watched : Watched} {reader : Reader α} {mirror : Session.Reader α}
  {done : α → Session → Prop}

theorem pure {value : α} (finished : done value watched.toSession) :
    TracksAt watched (pure value) (pure value) done := by
  refine ⟨.ok value, watched, rfl, rfl, .refl watched, ?_⟩
  rintro _ ⟨⟩
  exact finished

theorem throw {error : SyntaxError} : TracksAt watched (throw error) (throw error) done :=
  ⟨.error error, watched, rfl, rfl, .refl watched, nofun⟩

theorem mono {done' : α → Session → Prop} (tracks : TracksAt watched reader mirror done)
    (le : ∀ value session, done value session → done' value session) :
    TracksAt watched reader mirror done' := by
  obtain ⟨outcome, reached, run, same, kept, finished⟩ := tracks
  exact ⟨outcome, reached, run, same, kept, fun value h => le value _ (finished value h)⟩

theorem bind {done' : β → Session → Prop} {go : α → Reader β} {go' : α → Session.Reader β}
    (tracks : TracksAt watched reader mirror done)
    (next : ∀ value reached, Kept watched reached → done value reached.toSession →
      TracksAt reached (go value) (go' value) done') :
    TracksAt watched (reader >>= go) (mirror >>= go') done' := by
  obtain ⟨outcome, middle, run, same, kept, finished⟩ := tracks
  cases outcome with
  | error error =>
    exact ⟨.error error, middle, bind_of_error run, step_bind_of_error same, kept, nofun⟩
  | ok value =>
    obtain ⟨outcome, reached, run', same', kept', finished'⟩ :=
      next value middle kept (finished value rfl)
    refine ⟨outcome, reached, ?_, ?_, kept.trans kept', finished'⟩
    · rw [bind_of_ok run, run']
    · rw [step_bind_of_ok same, same']

theorem lift {outcome : Except SyntaxError α} {session : Session}
    (stepped : Session.step mirror watched.toSession = (outcome, session))
    (used : watched.used.length ≤ session.used.length)
    (spent : session.size + session.used.length ≤ watched.size + watched.used.length)
    (finished : ∀ value, outcome = .ok value → done value session) :
    TracksAt watched (lift mirror) mirror done :=
  ⟨outcome, { watched with toSession := session }, by simp only [Watched.lift, stepped], stepped,
    ⟨rfl, used, spent, id, id⟩, finished⟩

end TracksAt

section Primitives

variable {watched : Watched}

open Session (peek peekNth advance record enterLevel)

theorem buffer_step (session : Session) : ∃ outcome reached,
    Session.step Session.buffer session = (outcome, reached) ∧ reached.used = session.used ∧
      reached.size ≤ session.size ∧ ∀ token, outcome = .ok token →
        reached.openLevels = session.openLevels ∧
        reached.lookahead = session.lookahead ++ [token] := by
  cases next : session.cursor.next with
  | ok token cursor =>
    refine ⟨.ok token, _, step_of_ok (Session.buffer_of_ok next), rfl, ?_, ?_⟩
    · -- The end of the text is not counted, and any other token takes characters off the text.
      have le := Cursor.rest_length_le_of_next next
      have lt := Cursor.rest_length_lt_of_next next
      simp only [ParserState.size, List.countP_append, List.countP_singleton, bne_iff_ne, ne_eq,
        ite_not]
      split
      · omega
      · have := lt ‹_›
        omega
    · rintro _ ⟨⟩
      exact ⟨rfl, rfl⟩
  | error error cursor =>
    refine ⟨.error error, _, step_of_error (Session.buffer_of_error next), rfl, ?_, ?_⟩
    · have := Cursor.rest_length_lt_of_next_error next
      simp only [ParserState.size]
      omega
    · rintro _ ⟨⟩

theorem peekNth_tracksAt {place : Nat} (short : place ≤ watched.lookahead.length) :
    TracksAt watched (lift (peekNth place)) (peekNth place) fun token session =>
      session.openLevels = watched.openLevels ∧ watched.lookahead <+: session.lookahead ∧
        session.lookahead[place]? = some token := by
  cases found : watched.lookahead[place]? with
  | some token =>
    have stepped : Session.step (peekNth place) watched.toSession =
        (.ok token, watched.toSession) := step_of_ok (Session.peekNth_of_buffered found)
    refine .lift stepped (Nat.le_refl _) (Nat.le_refl _) ?_
    rintro _ ⟨⟩
    exact ⟨rfl, List.prefix_rfl, found⟩
  | none =>
    have missing : watched.lookahead.length = place :=
      Nat.le_antisymm (List.getElem?_eq_none_iff.1 found) short
    obtain ⟨outcome, reached, stepped, used, size, finished⟩ := buffer_step watched.toSession
    have stepped' : Session.step (peekNth place) watched.toSession = (outcome, reached) := by
      rw [← stepped, Session.step, Session.step, Session.peekNth_of_missing missing]
    refine .lift stepped' (by rw [used]) (by rw [used]; omega) fun token h => ?_
    obtain ⟨levels, ahead⟩ := finished token h
    refine ⟨levels, ahead ▸ List.prefix_append _ _, ?_⟩
    rw [ahead, ← missing, List.getElem?_concat_length]

theorem peek_tracksAt : TracksAt watched (lift peek) peek fun token session =>
    session.openLevels = watched.openLevels ∧ session.lookahead.head? = some token :=
  (peekNth_tracksAt (Nat.zero_le _)).mono fun _ _ holds =>
    ⟨holds.1, List.head?_eq_getElem?.trans holds.2.2⟩

theorem peekNth_one_tracksAt {first : Token} (looked : watched.lookahead.head? = some first) :
    TracksAt watched (lift (peekNth 1)) (peekNth 1) fun second session =>
      session.openLevels = watched.openLevels ∧
        ∃ more, session.lookahead = first :: second :: more := by
  obtain ⟨rest, ahead⟩ := List.head?_eq_some_iff.1 looked
  refine (peekNth_tracksAt (by rw [ahead]; simp)).mono ?_
  rintro second session ⟨levels, ⟨behind, whole⟩, found⟩
  rw [ahead, List.cons_append] at whole
  rw [← whole, List.getElem?_cons_succ] at found
  obtain ⟨more, same⟩ := List.head?_eq_some_iff.1 (List.head?_eq_getElem?.trans found)
  exact ⟨levels, more, by rw [← whole, same]⟩

theorem advance_tracksAt {token : Token} {rest : List Token}
    (ahead : watched.lookahead = token :: rest) (notEnd : token.kind ≠ .endOfInput) :
    TracksAt watched (lift advance) advance fun found session =>
      found = token ∧ session.lookahead = rest ∧ session.openLevels = watched.openLevels ∧
        session.used.length = watched.used.length + 1 := by
  have stepped : Session.step advance watched.toSession = (.ok token, { watched.toSession with
      lookahead := rest, lastStop := token.span.stop, used := watched.used ++ [token] }) :=
    step_of_ok (Session.advance_of_buffered ahead)
  have longer : (watched.used ++ [token]).length = watched.used.length + 1 :=
    List.length_append
  refine .lift stepped (Nat.le_of_lt longer.ge) ?_ ?_
  · have counted : (token.kind != .endOfInput) = true := by simpa using notEnd
    simp only [ParserState.size, ahead, List.countP_cons, counted, ↓reduceIte, longer]
    omega
  · rintro _ ⟨⟩
    exact ⟨rfl, rfl, rfl, longer⟩

theorem expect_tracksAt {rounds : Nat} {kind : TokenKind} (notEnd : kind ≠ .endOfInput)
    (construct : Construct) :
    TracksAt watched ((operations rounds).expect kind construct)
      (Session.operations.expect kind construct) fun _ session =>
        session.openLevels = watched.openLevels ∧ watched.used.length < session.used.length := by
  refine peek_tracksAt.bind ?_
  rintro token reached kept ⟨levels, looked⟩
  obtain ⟨rest, ahead⟩ := List.head?_eq_some_iff.1 looked
  have := kept.used
  split
  · next same =>
    refine (advance_tracksAt ahead (same ▸ notEnd)).mono ?_
    rintro _ session ⟨-, -, levels', used⟩
    exact ⟨levels'.trans levels, by omega⟩
  · exact .throw

theorem record_tracksAt (event : TraceEvent) :
    TracksAt watched (lift (record event)) (record event) fun _ session =>
      session.openLevels = watched.openLevels :=
  @TracksAt.lift _ watched (record event) _ (.ok ())
    { watched.toSession with trace := watched.trace ++ [event] } rfl (Nat.le_refl _)
    (Nat.le_refl _) fun _ _ => rfl

theorem spanFrom_tracksAt (first last : Span) :
    TracksAt watched (lift (Session.operations.spanFrom first last))
      (Session.operations.spanFrom first last) fun _ session => session = watched.toSession :=
  @TracksAt.lift _ watched (Session.operations.spanFrom first last) _
    (.ok ⟨first.start, watched.lastStop⟩) watched.toSession rfl (Nat.le_refl _) (Nat.le_refl _)
    fun _ _ => rfl

theorem enterLevel_tracksAt (opening : Token) :
    TracksAt watched (lift (enterLevel opening)) (enterLevel opening) fun _ session =>
      watched.openLevels < maxNesting ∧ session.openLevels = watched.openLevels + 1 := by
  by_cases room : watched.openLevels < maxNesting
  · have stepped : Session.step (enterLevel opening) watched.toSession =
        (.ok (), { watched.toSession with openLevels := watched.openLevels + 1 }) :=
      step_of_ok (by rw [enterLevel, if_pos room])
    exact .lift stepped (Nat.le_refl _) (Nat.le_refl _) fun _ _ => ⟨room, rfl⟩
  · have stepped : Session.step (enterLevel opening) watched.toSession =
        (.error ⟨.nestingTooDeep maxNesting, opening.span⟩, watched.toSession) :=
      step_of_error (by rw [enterLevel, if_neg room])
    exact .lift stepped (Nat.le_refl _) (Nat.le_refl _) nofun

end Primitives

section Accounts

variable {watched : Watched} {reader : Reader α} {mirror : Session.Reader α}
  {done : α → Session → Prop}

theorem restoring_tracksAt (tracks : TracksAt watched reader mirror fun _ _ => True) :
    TracksAt watched (restoring reader) (Session.restoring mirror) fun _ session =>
      session.openLevels = watched.openLevels := by
  obtain ⟨outcome, reached, run, same, kept, -⟩ := tracks
  refine ⟨outcome, { reached with openLevels := watched.openLevels }, ?_, ?_,
    ⟨kept.active, kept.used, kept.spent, kept.rounds, kept.chains⟩, fun _ _ => rfl⟩
  · simp only [restoring, run, Option.map_some]
  · unfold Session.step Session.restoring at *
    split at same <;> simp_all

theorem enter_tracksAt {routine : Routine} (descends : Descends (watched.entered routine).active)
    (inside : TracksAt (watched.entered routine) reader mirror done) :
    TracksAt watched (enter routine reader) mirror done := by
  obtain ⟨outcome, reached, run, same, kept, finished⟩ := inside
  refine ⟨outcome, { reached with active := watched.active }, ?_, same,
    ⟨rfl, kept.used, kept.spent, kept.rounds, fun chains => kept.chains ?_⟩, finished⟩
  · simp only [enter, run, Option.map_some]
  · exact List.forall_mem_append.2 ⟨chains, List.forall_mem_singleton.2 descends⟩

theorem round_tracksAt {loop : Loop}
    (tracks : TracksAt watched reader mirror fun value session =>
      watched.used.length < session.used.length ∧ done value session) :
    TracksAt watched (round loop reader) mirror fun value session =>
      watched.used.length < session.used.length ∧ done value session := by
  obtain ⟨outcome, reached, run, same, kept, finished⟩ := tracks
  cases outcome with
  | error error =>
    exact ⟨.error error, reached, by simp only [round, run, Option.map_some], same, kept, nofun⟩
  | ok value =>
    have progress := (finished value rfl).1
    let noted : Round := ⟨loop, watched.used.length, reached.used.length⟩
    refine ⟨.ok value, { reached with rounds := reached.rounds ++ [noted] },
      by simp only [round, run, Option.map_some, noted], same,
      ⟨kept.active, kept.used, kept.spent, fun rounds => ?_, kept.chains⟩, finished⟩
    exact List.forall_mem_append.2 ⟨kept.rounds rounds, List.forall_mem_singleton.2 progress⟩

end Accounts

end Watched

end SableSyntax
