/- SableSyntax/Proofs/Parsing/VisitOrder
   digest: A visitor comes by every node once, in the order of the text, whatever it overrides. -/

import SableSyntax.Proofs.Parsing.NodePlaces
import SableSyntax.Proofs.Parsing.ReportedPlaces
import SableSyntax.Proofs.Syntax.Walks

set_option autoImplicit false
set_option relaxedAutoImplicit false

namespace SableSyntax

namespace Node

variable {root child node : Node}

theorem StandsIn.of_child (member : child ∈ root.children) (inside : child.StandsIn node) :
    root.StandsIn node := by
  induction inside with
  | self => exact .child .self member
  | child _ listed ih => exact .child ih listed

/-- Whether the stretches of a tree are arranged like its nodes: each contains those directly below,
which stand one behind the other. -/
structure Arranged (root : Node) : Prop where
  ordered : ∀ node, root.StandsIn node → node.span.start.offset ≤ node.span.stop.offset
  nested : ∀ node, root.StandsIn node → ∀ child ∈ node.children, node.span.contains child.span
  apart : ∀ node, root.StandsIn node →
    node.children.Pairwise fun first second => first.span.Before second.span

theorem Arranged.below (h : root.Arranged) (member : child ∈ root.children) : child.Arranged :=
  ⟨fun node inside => h.ordered node (inside.of_child member),
    fun node inside => h.nested node (inside.of_child member),
    fun node inside => h.apart node (inside.of_child member)⟩

theorem Arranged.occurrences (h : root.Arranged) :
    (∀ entry ∈ root.occurrences, root.span.start.offset ≤ entry.2.span.start.offset ∧
      entry.2.span.start.offset ≤ root.span.stop.offset) ∧
    root.occurrences.Pairwise fun first second =>
      first.2.span.start.offset ≤ second.2.span.start.offset := by
  induction root using induct with
  | step root ih =>
    have inside (child : Node) (member : child ∈ root.children) :
        root.span.start.offset ≤ child.span.start.offset ∧
          child.span.stop.offset ≤ root.span.stop.offset := by
      simpa [Span.contains] using h.nested root .self child member
    have below (entry : Node × Nat) (member : entry ∈ root.children.zipIdx) :=
      ih entry.1 (List.fst_mem_of_mem_zipIdx member)
        (h.below (List.fst_mem_of_mem_zipIdx member))
    rw [occurrences_eq, List.forall_mem_cons, List.pairwise_cons, List.pairwise_flatMap]
    simp only [List.forall_mem_flatMap, List.forall_mem_map]
    have within (entry : Node × Nat) (member : entry ∈ root.children.zipIdx)
        (found : List Nat × Node) (member' : found ∈ entry.1.occurrences) :
        root.span.start.offset ≤ found.2.span.start.offset ∧
          found.2.span.start.offset ≤ root.span.stop.offset := by
      have outer := inside entry.1 (List.fst_mem_of_mem_zipIdx member)
      have inner := (below entry member).1 found member'
      omega
    refine ⟨⟨⟨Nat.le_refl _, h.ordered root .self⟩, within⟩,
      fun entry member found member' => (within entry member found member').1,
      fun entry member => List.pairwise_map.2 (below entry member).2, ?_⟩
    have apart : (root.children.zipIdx.map Prod.fst).Pairwise fun first second =>
        first.span.Before second.span := by
      rw [List.zipIdx_map_fst]
      exact h.apart root .self
    refine (List.pairwise_map.1 apart).imp_of_mem
      fun member member' before found listed found' listed' => ?_
    have left := ((below _ member).1 found listed).2
    have right := ((below _ member').1 found' listed').1
    exact Nat.le_trans left (Nat.le_trans before right)

end Node

theorem pairwise_start_of_parse {source : String} {program : Program}
    (accepted : parse source = .ok program) :
    (Node.program program).occurrences.Pairwise fun first second =>
      first.2.span.start.offset ≤ second.2.span.start.offset := by
  by_cases functions : program.functions = []
  · rw [Node.occurrences_eq, Node.children, functions]
    exact List.pairwise_singleton _ _
  · obtain ⟨tokens, stop, lexed, derived⟩ := parse_eq_ok_iff.1 accepted
    have laid : LaidOut source.toList 0 ((tokens ++ [stop]).map .ok) :=
      tokenize_eq_ok_iff.1 lexed ▸ (Cursor.isIn_ofText source).laidOut_results
    rw [List.map_append] at laid
    have places (node : Node) (inside : (Node.program program).StandsIn node) :=
      Grammar.places_of_standsIn functions derived laid.of_append.1 inside
    refine (Node.Arranged.occurrences ⟨fun node inside => ?_, fun node inside =>
      (places node inside).2.1, fun node inside => (places node inside).2.2⟩).2
    obtain ⟨⟨before, used, behind, rfl, -, extent⟩, -⟩ := places node inside
    simp only [List.map_append] at laid
    exact (extent.isIn laid.of_append.1.of_append.2.of_append.1).ordered

theorem Program.visits_eq_written (program : Program) {reaction : NodeKind → Reaction}
    (noAfter : ∀ kind, reaction kind ≠ .after) :
    program.visits reaction = Visitor.written (reaction · != .pass) (reaction · == .around)
      (reaction · != .only) (.program program) := by
  rw [Program.visits, Visitor.recording_eq_writing noAfter]
  rfl

section Overrides

variable (program : Program) (overridden : NodeKind → Bool)

theorem Program.visits_before : program.visits
      (fun kind => if overridden kind then .before else .pass) =
    Visitor.written overridden (fun _ => false) (fun _ => true) (.program program) := by
  rw [visits_eq_written program fun kind => by split <;> decide]
  congr 1 <;> funext kind <;> cases overridden kind <;> rfl

theorem Program.visits_around : program.visits
      (fun kind => if overridden kind then .around else .pass) =
    Visitor.written overridden overridden (fun _ => true) (.program program) := by
  rw [visits_eq_written program fun kind => by split <;> decide]
  congr 1 <;> funext kind <;> cases overridden kind <;> rfl

theorem Program.visits_before_eq_map : program.visits
      (fun kind => if overridden kind then .before else .pass) =
    ((Node.program program).occurrences.filter fun (_, node) => overridden node.kind).map
      fun (_, node) => .enter node := by
  rw [visits_before, Visitor.written_eq_map_occurrences]
  congr 1
  refine List.filter_congr fun ⟨path, node⟩ member => ?_
  have reached : (Node.program program).reaches (fun _ => true) path :=
    (Node.reaches_iff (Node.mem_occurrences_iff.1 member)).2 fun _ _ _ _ _ _ => rfl
  simp only [reached, Bool.and_true]

theorem Program.visits_all : program.visits (fun _ => .before) =
    (Node.program program).occurrences.map fun (_, node) => .enter node := by
  simpa using program.visits_before_eq_map fun _ => true

end Overrides

/-- A visitor comes by the nodes of a program once each, in the order of the text. The nodes are
those that paths lead to; they are listed by their paths in order, so that each comes once, before
those below it, and in a program that was read they start in this order. A visitor that overrides
all methods, makes a record and then walks comes by all of them, and one that overrides some of the
methods by those of their kinds; records of entering and of leaving are balanced. Methods that do
not walk take away the nodes strictly below those that they are given, and no others. -/
theorem visits_in_source_order (program : Program) :
    (∀ path node, (path, node) ∈ (Node.program program).occurrences ↔
      (Node.program program).at? path = some node) ∧
    ((Node.program program).occurrences.Pairwise fun first second =>
      List.Lex (· < ·) first.1 second.1) ∧
    program.visits (fun _ => .before) =
      (Node.program program).occurrences.map (fun (_, node) => .enter node) ∧
    (∀ source, parse source = .ok program →
      (program.visits fun _ => .before).Pairwise fun first second =>
        first.node.span.start.offset ≤ second.node.span.start.offset) ∧
    (∀ overridden : NodeKind → Bool,
      program.visits (fun kind => if overridden kind then .before else .pass) =
        (program.visits fun _ => .before).filter (fun event => overridden event.node.kind) ∧
      Balanced (program.visits fun kind => if overridden kind then .around else .pass) ∧
      (program.visits fun kind => if overridden kind then .around else .pass).filter
          VisitEvent.isEnter =
        program.visits (fun kind => if overridden kind then .before else .pass)) ∧
    (∀ overridden walks : NodeKind → Bool,
      (Visitor.writing overridden (fun _ => false) walks).visitProgram program [] =
        ((Node.program program).occurrences.filter fun (path, node) =>
          overridden node.kind && (Node.program program).reaches walks path).map
            fun (_, node) => .enter node) ∧
    (∀ (walks : NodeKind → Bool) path node, (Node.program program).at? path = some node →
      ((Node.program program).reaches walks path ↔ ∀ above below, path = above ++ below →
        below ≠ [] → ∀ parent, (Node.program program).at? above = some parent →
          walks parent.kind)) := by
  refine ⟨fun path node => Node.mem_occurrences_iff, Node.pairwise_occurrences _,
    program.visits_all, fun source accepted => ?_, fun overridden => ⟨?_, ?_, ?_⟩,
    fun overridden walks => Visitor.written_eq_map_occurrences (.program program),
    fun walks path node found => Node.reaches_iff found⟩
  · rw [program.visits_all, List.pairwise_map]
    exact pairwise_start_of_parse accepted
  · rw [program.visits_before_eq_map, program.visits_all, List.filter_map]
    rfl
  · rw [program.visits_around]
    exact .written _
  · rw [program.visits_around, program.visits_before]
    exact Visitor.filter_isEnter_written _

/-- A visitor of names comes by that of a function and by the target of an assignment in it, and not
by the target if statements are not walked. -/
theorem visits_in_source_order_assignment :
    ∃ program, parse "func f(): T { x = 1; }" = .ok program ∧
      ((program.visits fun _ => .before).Pairwise fun first second =>
        first.node.span.start.offset ≤ second.node.span.start.offset) ∧
      (program.visits fun kind => if kind == .identifier then .before else .pass).map
        (fun event => event.node.text) = ["f", "x"] ∧
      ((Visitor.writing (· == .identifier) (fun _ => false) (· != .statement)).visitProgram program
        []).map (fun event => event.node.text) = ["f"] := by
  have names : (parse "func f(): T { x = 1; }").map (fun program =>
      ((program.visits fun kind => if kind == .identifier then .before else .pass).map
          fun event => event.node.text,
        ((Visitor.writing (· == .identifier) (fun _ => false) (· != .statement)).visitProgram
          program []).map fun event => event.node.text)) = .ok (["f", "x"], ["f"]) := by
    decide +kernel
  cases accepted : parse "func f(): T { x = 1; }" with
  | error error =>
    rw [accepted] at names
    cases names
  | ok program =>
    rw [accepted] at names
    obtain ⟨all, stopped⟩ := Prod.mk.inj (Except.ok.inj names)
    exact ⟨program, rfl, (visits_in_source_order program).2.2.2.1 _ accepted, all, stopped⟩

end SableSyntax
