/- SableSyntax/Proofs/Sessions/Activations
   digest: Expressions are read by activations that go deeper and further on, in bounded number. -/

import Mathlib.Data.List.Perm.Subperm
import SableSyntax.Proofs.Sessions.Tracking

set_option autoImplicit false
set_option relaxedAutoImplicit false

namespace SableSyntax

namespace Watched

section Chains

variable {chain : List Activation}

def activationsOf (routine : Routine) (chain : List Activation) : List Activation :=
  chain.filter (·.routine = routine)

theorem pairwise_activationsOf (descends : Descends chain) (routine : Routine) :
    (activationsOf routine chain).Pairwise Activation.Behind := by
  refine (descends.ordered.filter _).imp_of_mem fun member member' behind => behind ?_
  have same := (List.mem_filter.1 member).2
  have same' := (List.mem_filter.1 member').2
  exact (of_decide_eq_true same).trans (of_decide_eq_true same').symm

theorem length_activationsOf_le (descends : Descends chain) (routine : Routine) :
    (activationsOf routine chain).length ≤ maxNesting + 1 := by
  let levels := (activationsOf routine chain).map Activation.openLevels
  have distinct : levels.Nodup :=
    List.pairwise_map.2 ((pairwise_activationsOf descends routine).imp fun behind => behind.1.ne')
  have within : levels ⊆ List.range (maxNesting + 1) := by
    intro count counted
    obtain ⟨activation, member, rfl⟩ := List.mem_map.1 counted
    have bounded := descends.bounded activation (List.mem_of_mem_filter member)
    exact List.mem_range.2 (Nat.lt_succ_of_le bounded)
  have le := (distinct.subperm within).length_le
  rwa [List.length_map, List.length_range] at le

end Chains

section Expressions

variable {rounds calls : Nat} {watched reached : Watched} {routine other : Routine}

/-- Where a reader of expressions may start: the activations are in order and none of them was
entered deeper or further on, and there is room for as many calls as levels may still be opened, and
for more rounds than tokens are ahead. -/
structure Ready (rounds calls : Nat) (watched : Watched) : Prop where
  descends : Descends watched.active
  within : ∀ earlier ∈ watched.active,
    earlier.openLevels ≤ watched.openLevels ∧ earlier.used ≤ watched.used.length
  levels : watched.openLevels ≤ maxNesting
  calls : maxNesting < calls + watched.openLevels
  rounds : watched.size < rounds

/-- Whether a routine may be entered: more levels are open and more tokens have been used than at
its earlier entries. -/
def Fresh (routine : Routine) (watched : Watched) : Prop :=
  ∀ earlier ∈ watched.active, earlier.routine = routine →
    Activation.Behind ⟨routine, watched.openLevels, watched.used.length⟩ earlier

theorem Ready.moved (ready : Ready rounds calls watched) (kept : Kept watched reached)
    (rises : watched.openLevels ≤ reached.openLevels) (bounded : reached.openLevels ≤ maxNesting) :
    Ready rounds calls reached where
  descends := kept.active ▸ ready.descends
  within earlier member := by
    have within := ready.within earlier (kept.active ▸ member)
    exact ⟨Nat.le_trans within.1 rises, Nat.le_trans within.2 kept.used⟩
  levels := bounded
  calls := Nat.lt_of_lt_of_le ready.calls (Nat.add_le_add_left rises calls)
  rounds := Nat.lt_of_le_of_lt kept.size_le ready.rounds

theorem Ready.kept (ready : Ready rounds calls watched) (kept : Kept watched reached)
    (levels : reached.openLevels = watched.openLevels) : Ready rounds calls reached :=
  ready.moved kept levels.ge (levels ▸ ready.levels)

theorem Ready.longer (ready : Ready rounds calls watched) (kept : Kept watched reached)
    (room : watched.openLevels < maxNesting)
    (levels : reached.openLevels = watched.openLevels + 1) : Ready rounds calls reached :=
  ready.moved kept (levels ▸ Nat.le_succ _) (levels ▸ room)

theorem Ready.deeper (ready : Ready rounds (calls + 1) watched) (kept : Kept watched reached)
    (room : watched.openLevels < maxNesting)
    (levels : reached.openLevels = watched.openLevels + 1)
    (used : watched.used.length < reached.used.length) :
    Ready rounds calls reached ∧ ∀ routine, Fresh routine reached := by
  have longer := ready.longer kept room levels
  refine ⟨{ longer with calls := ?_ }, fun routine earlier member _ => ?_⟩
  · have := ready.calls
    omega
  · have within := ready.within earlier (kept.active ▸ member)
    have deeper : earlier.openLevels < reached.openLevels := by omega
    exact ⟨deeper, Nat.lt_of_le_of_lt within.2 used⟩

theorem Ready.entered (ready : Ready rounds calls watched) (fresh : Fresh routine watched) :
    Ready rounds calls (watched.entered routine) where
  descends := by
    refine ⟨List.pairwise_cons.2 ⟨fun earlier member same => ?_, ready.descends.ordered⟩, ?_⟩
    · exact fresh earlier member same.symm
    · exact List.forall_mem_cons.2 ⟨ready.levels, ready.descends.bounded⟩
  within := List.forall_mem_cons.2 ⟨⟨Nat.le_refl _, Nat.le_refl _⟩, ready.within⟩
  levels := ready.levels
  calls := ready.calls
  rounds := ready.rounds

theorem Fresh.entered (fresh : Fresh other watched) (ne : routine ≠ other) :
    Fresh other (watched.entered routine) :=
  List.forall_mem_cons.2 ⟨fun same => absurd same ne, fresh⟩

theorem Fresh.kept (fresh : Fresh routine watched) (kept : Kept watched reached)
    (levels : reached.openLevels = watched.openLevels) : Fresh routine reached := by
  intro earlier member same
  have behind := fresh earlier (kept.active ▸ member) same
  have := kept.used
  exact ⟨levels ▸ behind.1, Nat.lt_of_lt_of_le behind.2 this⟩

/-- Readers that are watched do what readers of sessions do that call each other once for each level
that may still be opened, and once more. -/
structure Readers.Track (inner : Readers) (beyond : Session.Readers) (rounds calls : Nat) :
    Prop where
  expression : ∀ watched, Ready rounds calls watched → (∀ routine, Fresh routine watched) →
    TracksAt watched inner.expression
      (beyond.unrolled (maxNesting + 1 - watched.openLevels)).expression
      fun _ session => session.openLevels = watched.openLevels
  binary : ∀ least watched, Ready rounds calls watched → Fresh .binary watched →
    TracksAt watched (inner.binary least)
      ((beyond.unrolled (maxNesting + 1 - watched.openLevels)).binary least)
      fun _ session => session.openLevels = watched.openLevels
  primary : ∀ watched, Ready rounds calls watched →
    TracksAt watched inner.primary (beyond.unrolled (maxNesting + 1 - watched.openLevels)).primary
      fun _ session => session.openLevels = watched.openLevels

variable {inner : Readers} {beyond : Session.Readers}

theorem unrolled_eq (levels : watched.openLevels ≤ maxNesting) :
    beyond.unrolled (maxNesting + 1 - watched.openLevels) =
      (beyond.unrolled (maxNesting - watched.openLevels)).layer := by
  rw [Nat.succ_sub levels, Session.Readers.unrolled]

theorem enclosed_tracksAt (track : inner.Track beyond rounds calls)
    (ready : Ready rounds (calls + 1) watched) (kept : Kept watched reached)
    (levels : reached.openLevels = watched.openLevels)
    (used : watched.used.length < reached.used.length) (opening : Token) :
    TracksAt reached ((operations rounds).enclosed openLevel inner opening)
      (Session.operations.enclosed Session.enterLevel
        (beyond.unrolled (maxNesting - watched.openLevels)) opening)
      fun _ session => session.openLevels = watched.openLevels := by
  rw [← levels]
  refine restoring_tracksAt ((enterLevel_tracksAt opening).bind ?_)
  rintro _ last kept' ⟨room, opened⟩
  obtain ⟨ready', fresh⟩ := ready.deeper (kept.trans kept') (levels ▸ room) (levels ▸ opened)
    (Nat.lt_of_lt_of_le used kept'.used)
  have left : maxNesting + 1 - last.openLevels = maxNesting - reached.openLevels := by omega
  exact left ▸ (track.expression last ready' fresh).mono fun _ _ _ => trivial

theorem primaryOver_tracksAt (track : inner.Track beyond rounds calls)
    (ready : Ready rounds (calls + 1) watched) :
    TracksAt watched ((operations rounds).primaryOver openLevel inner)
      (Session.operations.primaryOver Session.enterLevel
        (beyond.unrolled (maxNesting - watched.openLevels)))
      fun _ session => session.openLevels = watched.openLevels := by
  refine peek_tracksAt.bind ?_
  rintro token looked kept ⟨levels, head⟩
  obtain ⟨rest, ahead⟩ := List.head?_eq_some_iff.1 head
  have advanced (notEnd : token.kind ≠ .endOfInput) :
      TracksAt looked (lift Session.advance) Session.advance fun _ session =>
        session.openLevels = watched.openLevels ∧ watched.used.length < session.used.length := by
    refine (advance_tracksAt ahead notEnd).mono ?_
    rintro _ session ⟨-, -, levels', used⟩
    exact ⟨levels'.trans levels, Nat.lt_of_le_of_lt kept.used (by omega)⟩
  cases kind : token.kind
  case integer =>
    refine (advanced (by simp [kind])).bind fun _ behind _ holds => ?_
    cases integerValue? token.text.toList with
    | some value => exact .pure holds.1
    | none => exact .throw
  case float =>
    refine (advanced (by simp [kind])).bind fun _ behind _ holds => ?_
    cases floatValue? token.text.toList with
    | some value => exact .pure holds.1
    | none => exact .throw
  case identifier => exact (advanced (by simp [kind])).bind fun _ _ _ holds => .pure holds.1
  case leftParen =>
    refine (advanced (by simp [kind])).bind fun _ behind kept' holds => ?_
    refine (enclosed_tracksAt track ready (kept.trans kept') holds.1 holds.2 token).bind ?_
    intro value closed _ levels
    refine (expect_tracksAt (by decide) _).bind ?_
    exact fun _ _ _ holds' => .pure (holds'.1.trans levels)
  all_goals exact .throw

theorem linkOver_tracksAt (track : inner.Track beyond rounds calls)
    (ready : Ready rounds (calls + 1) watched) {token : Token} {rest : List Token}
    (ahead : watched.lookahead = token :: rest) (notEnd : token.kind ≠ .endOfInput)
    (rule : OperatorRule) (left : Expression) :
    TracksAt watched ((operations rounds).linkOver openLevel inner token rule left)
      (Session.operations.linkOver Session.enterLevel
        (beyond.unrolled (maxNesting - watched.openLevels)) token rule left)
      fun _ session => watched.used.length < session.used.length ∧
        watched.openLevels < maxNesting ∧ session.openLevels = watched.openLevels + 1 := by
  refine (advance_tracksAt ahead notEnd).bind ?_
  rintro _ behind kept ⟨-, -, levels, used⟩
  refine (enterLevel_tracksAt token).bind ?_
  rintro _ inside kept' ⟨room, opened⟩
  rw [levels] at room opened
  have further : watched.used.length < inside.used.length := by
    have := kept'.used
    omega
  obtain ⟨ready', fresh⟩ := ready.deeper (kept.trans kept') room opened further
  have count : maxNesting + 1 - inside.openLevels = maxNesting - watched.openLevels := by omega
  have right := track.binary rule.rightOperand inside ready' (fresh .binary)
  rw [count] at right
  refine right.bind fun right last kept'' levels' => .pure ⟨?_, room, levels'.trans opened⟩
  exact Nat.lt_of_lt_of_le further kept''.used

/-- A chain is read in as many rounds as it has links, each of which uses a token, however few
rounds more than tokens ahead there may be. -/
theorem chain_tracksAt (track : inner.Track beyond rounds calls) (least : Precedence)
    {bound : Nat} (room : watched.size < bound) (ready : Ready rounds (calls + 1) watched)
    (left : Expression) :
    TracksAt watched (chain inner bound least left)
      (Session.operations.chainOver Session.enterLevel
        (beyond.unrolled (maxNesting - watched.openLevels)) least left)
      fun _ _ => True := by
  induction bound generalizing watched left with
  | zero => exact absurd room (Nat.not_lt_zero _)
  | succ bound ih =>
    refine peek_tracksAt.bind ?_
    rintro token looked kept ⟨levels, head⟩
    obtain ⟨rest, ahead⟩ := List.head?_eq_some_iff.1 head
    have ready := ready.kept kept levels
    rw [← levels]
    cases operator : token.kind.operatorRule? with
    | none => exact .pure trivial
    | some rule =>
      have notEnd : token.kind ≠ .endOfInput := by
        intro same
        rw [same] at operator
        cases operator
      by_cases binds : least ≤ rule.precedence
      · simp only [binds, ↓reduceIte]
        refine (round_tracksAt (linkOver_tracksAt track ready ahead notEnd rule left)).bind ?_
        rintro longer behind kept' ⟨used, deep, opened⟩
        -- The link has used a token, so less is ahead; it has left a level open, which the readers
        -- of the rest of the chain are one fewer for.
        have fewer : behind.size < bound := by
          have := kept.size_le
          have := kept'.spent
          omega
        have count : maxNesting - looked.openLevels = maxNesting + 1 - behind.openLevels := by omega
        rw [count, unrolled_eq (by omega)]
        exact ih fewer (ready.longer kept' deep opened) longer
      · simp only [binds, ↓reduceIte]
        exact .pure trivial

theorem binaryOver_tracksAt (track : inner.Track beyond rounds calls)
    (ready : Ready rounds (calls + 1) watched) (fresh : Fresh .binary watched)
    (least : Precedence) :
    TracksAt watched ((operations rounds).binaryOver openLevel inner (chain inner rounds) least)
      ((beyond.unrolled (maxNesting - watched.openLevels)).layer.binary least)
      fun _ session => session.openLevels = watched.openLevels := by
  have ready := ready.entered fresh
  refine enter_tracksAt ready.descends ((primaryOver_tracksAt track ready).bind ?_)
  intro left behind kept levels
  have ready := ready.kept kept levels
  have chain := restoring_tracksAt (chain_tracksAt track least ready.rounds ready left)
  rw [levels] at chain
  exact chain

theorem assignmentOver_tracksAt (track : inner.Track beyond rounds calls)
    (ready : Ready rounds (calls + 1) watched) {name mark : Token} {rest : List Token}
    (ahead : watched.lookahead = name :: mark :: rest) (named : name.kind = .identifier)
    (marked : mark.kind = .equal) :
    TracksAt watched ((operations rounds).assignmentOver openLevel inner)
      (Session.operations.assignmentOver Session.enterLevel
        (beyond.unrolled (maxNesting - watched.openLevels)))
      fun _ session => session.openLevels = watched.openLevels := by
  refine (advance_tracksAt ahead (by simp [named])).bind ?_
  rintro _ middle kept ⟨-, ahead', levels, used⟩
  refine (advance_tracksAt ahead' (by simp [marked])).bind ?_
  rintro _ behind kept' ⟨-, -, levels', used'⟩
  refine (enclosed_tracksAt track ready (kept.trans kept') (levels'.trans levels)
    (by omega) _).bind fun value _ _ closed => ?_
  exact .pure closed

theorem expressionOver_tracksAt (track : inner.Track beyond rounds calls)
    (ready : Ready rounds (calls + 1) watched) (fresh : ∀ routine, Fresh routine watched) :
    TracksAt watched ((operations rounds).expressionOver openLevel inner (chain inner rounds))
      (beyond.unrolled (maxNesting - watched.openLevels)).layer.expression
      fun _ session => session.openLevels = watched.openLevels := by
  have ready := ready.entered (fresh .expression)
  have fresh : Fresh .binary (watched.entered .expression) := (fresh .binary).entered (by decide)
  refine enter_tracksAt ready.descends (peek_tracksAt.bind ?_)
  rintro first looked kept ⟨levels, head⟩
  have operands {reached : Watched} (kept : Kept (watched.entered .expression) reached)
      (levels : reached.openLevels = watched.openLevels) :=
    levels ▸ binaryOver_tracksAt track (ready.kept kept levels) (fresh.kept kept levels)
      Precedence.assignment.next
  split
  · next named =>
    refine (peekNth_one_tracksAt head).bind ?_
    rintro second reached kept' ⟨levels', more, ahead⟩
    have kept := kept.trans kept'
    have levels := levels'.trans levels
    split
    · next marked =>
      exact levels ▸ assignmentOver_tracksAt track (ready.kept kept levels) ahead named marked
    · exact operands kept levels
  · exact operands kept levels

/-- The readers may be called wherever there is room for them. -/
theorem unrolled_track (beyond : Session.Readers) (rounds calls : Nat) :
    (unrolled rounds calls).Track beyond rounds calls := by
  induction calls with
  | zero =>
    have none (watched : Watched) (ready : Ready rounds 0 watched) : False := by
      have := ready.levels
      have := ready.calls
      omega
    exact ⟨fun _ ready => (none _ ready).elim, fun _ _ ready => (none _ ready).elim,
      fun _ ready => (none _ ready).elim⟩
  | succ calls ih =>
    refine ⟨fun watched ready fresh => ?_, fun least watched ready fresh => ?_,
      fun watched ready => ?_⟩
    · rw [unrolled_eq ready.levels]
      exact expressionOver_tracksAt ih ready fresh
    · rw [unrolled_eq ready.levels]
      exact binaryOver_tracksAt ih ready fresh least
    · rw [unrolled_eq ready.levels]
      exact primaryOver_tracksAt ih ready

end Expressions

end Watched

end SableSyntax
