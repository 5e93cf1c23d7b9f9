/- SableSyntax/Proofs/Parsing/NodePlaces
   digest: The stretches of a program's nodes are tight, nested like the nodes, and in order. -/

import SableSyntax.Proofs.Grammar.Parts
import SableSyntax.Proofs.Parsing.Acceptance
import SableSyntax.Proofs.Parsing.StatePlaces
import SableSyntax.Proofs.Sessions.Streams

set_option autoImplicit false
set_option relaxedAutoImplicit false

namespace SableSyntax

open Grammar

section Tokens

variable {text : List Char} {offset : Nat} {tokens used before behind : List Token}
  {span inner : Span}

theorem Span.Extends.contains_token (extent : span.Extends tokens)
    (laid : LaidOut text offset (tokens.map .ok)) {token : Token} (member : token ∈ tokens) :
    span.start.offset ≤ token.span.start.offset ∧ token.span.stop.offset ≤ span.stop.offset := by
  have ordered (token : Token) (member : token ∈ tokens) :
      token.span.start.offset ≤ token.span.stop.offset :=
    (laid.isIn (.ok token) (List.mem_map_of_mem member)).ordered
  obtain ⟨first, head, starts⟩ := Option.map_eq_some_iff.1 extent.starts
  obtain ⟨last, tail, stops⟩ := Option.map_eq_some_iff.1 extent.stops
  have pairs := List.pairwise_map.1 laid.ordered
  rw [← starts, ← stops]
  constructor
  · obtain ⟨rest, rfl⟩ := List.head?_eq_some_iff.1 head
    rcases List.mem_cons.1 member with rfl | member
    · exact Nat.le_refl _
    · exact Nat.le_trans (ordered first List.mem_cons_self)
        ((List.pairwise_cons.1 pairs).1 token member)
  · obtain ⟨front, rfl⟩ := List.getLast?_eq_some_iff.1 tail
    rcases List.mem_append.1 member with member | member
    · have only : last ∈ [last] := List.mem_singleton_self _
      have behind := (List.pairwise_append.1 pairs).2.2 token member last only
      exact Nat.le_trans behind (ordered last (List.mem_append_right _ only))
    · obtain rfl := List.mem_singleton.1 member
      exact Nat.le_refl _

theorem Span.Extends.exists_ends (extent : span.Extends tokens) : ∃ first ∈ tokens,
    ∃ last ∈ tokens, first.span.start = span.start ∧ last.span.stop = span.stop := by
  obtain ⟨first, head, starts⟩ := Option.map_eq_some_iff.1 extent.starts
  obtain ⟨last, tail, stops⟩ := Option.map_eq_some_iff.1 extent.stops
  exact ⟨first, List.mem_of_head? head, last, List.mem_of_getLast? tail, starts, stops⟩

theorem Span.Extends.contains (extent : span.Extends tokens)
    (laid : LaidOut text offset (tokens.map .ok)) (part : inner.Extends used)
    (inside : ∀ token ∈ used, token ∈ tokens) : span.contains inner := by
  obtain ⟨first, head, last, tail, starts, stops⟩ := part.exists_ends
  have starts' := (extent.contains_token laid (inside first head)).1
  have stops' := (extent.contains_token laid (inside last tail)).2
  rw [starts] at starts'
  rw [stops] at stops'
  simp [Span.contains, starts', stops']

end Tokens

namespace Grammar

variable {text : List Char} {offset : Nat} {stop : Token} {tokens : List Token}

theorem extends_of_kind_ne_program {node : Node} (derived : node.DerivedFrom stop tokens)
    (notProgram : node.kind ≠ .program) : node.span.Extends tokens := by
  rcases extends_of_derivedFrom stop derived with extent | ⟨-, rfl⟩
  · exact extent
  · exact absurd rfl notProgram

theorem Parts.pairwise_before {nodes : List Node} (parts : Parts stop tokens nodes)
    (notProgram : ∀ node ∈ nodes, node.kind ≠ .program)
    (laid : LaidOut text offset (tokens.map .ok)) :
    nodes.Pairwise fun first second => first.span.Before second.span := by
  induction parts with
  | nil => exact .nil
  | @cons skipped front behind node nodes derived rest ih =>
    rw [List.forall_mem_cons] at notProgram
    simp only [List.map_append] at laid
    have laid' := laid.of_append.2
    refine .cons (fun other member => ?_) (ih notProgram.2 laid'.of_append.2)
    -- Each of the other nodes starts with a token behind the last one of this node.
    obtain ⟨before, used, others, rfl, derived'⟩ := rest.exists_part member
    obtain ⟨-, -, last, tail, -, stops⟩ :=
      (extends_of_kind_ne_program derived notProgram.1).exists_ends
    obtain ⟨first, head, -, -, starts, -⟩ :=
      (extends_of_kind_ne_program derived' (notProgram.2 other member)).exists_ends
    have ordered := (List.pairwise_append.1 laid'.ordered).2.2 (.ok last)
      (List.mem_map_of_mem tail) (.ok first) (List.mem_map_of_mem (by simp [head]))
    rwa [Span.Before, ← stops, ← starts]

theorem contains_of_mem_children {node child : Node} (derived : node.DerivedFrom stop tokens)
    (extent : node.span.Extends tokens) (laid : LaidOut text offset (tokens.map .ok))
    (member : child ∈ node.children) : node.span.contains child.span := by
  obtain ⟨before, used, behind, rfl, derived'⟩ := (parts_children stop derived).exists_part member
  have notProgram := Node.kind_ne_program_of_mem_children child member
  exact extent.contains laid (extends_of_kind_ne_program derived' notProgram)
    fun token inside => by simp [inside]

theorem extends_of_standsIn {program : Program} (functions : program.functions ≠ []) {node : Node}
    (inside : (Node.program program).StandsIn node) (derived : node.DerivedFrom stop tokens) :
    node.span.Extends tokens := by
  rcases extends_of_derivedFrom stop derived with extent | ⟨-, rfl⟩
  · exact extent
  · cases inside.eq_of_kind_program rfl
    exact absurd rfl functions

/-- In a program with functions every node extends over the tokens that it is derived from, contains
the nodes directly below it, and has these one behind the other. -/
theorem places_of_standsIn {program : Program} (functions : program.functions ≠ [])
    (derived : Parser.ProgramUpTo stop tokens program) (laid : LaidOut text offset (tokens.map .ok))
    {node : Node} (inside : (Node.program program).StandsIn node) :
    (∃ before used behind, tokens = before ++ (used ++ behind) ∧
      node.DerivedFrom stop used ∧ node.span.Extends used) ∧
    (∀ child ∈ node.children, node.span.contains child.span) ∧
    node.children.Pairwise fun first second => first.span.Before second.span := by
  obtain ⟨before, used, behind, rfl, derived'⟩ := exists_part_of_standsIn stop
    (show Node.DerivedFrom stop tokens (.program program) from derived) inside
  have extent := extends_of_standsIn functions inside derived'
  simp only [List.map_append] at laid
  have laid' := laid.of_append.2.of_append.1
  exact ⟨⟨before, used, behind, rfl, derived', extent⟩,
    fun _ member => contains_of_mem_children derived' extent laid' member,
    (parts_children stop derived').pairwise_before Node.kind_ne_program_of_mem_children laid'⟩

end Grammar

/-- The nodes of a program that was read extend over the tokens they were read from. A program
without functions is the empty stretch at the end of the text. In any other program every node, at
any depth, starts with the first and stops with the last of the tokens that it is derived from; it
contains the nodes directly below it, and each of these stops before the next one starts. Readers
that take the end of a node from the last token used, whatever they have looked at behind it, give
the same places. -/
theorem node_places {source : String} {program : Program} (accepted : parse source = .ok program) :
    (∀ beyond, (Session.step (Session.reader beyond .program) (.ofText source)).1 = .ok program) ∧
    ∃ tokens stop, tokenize source = .ok (tokens ++ [stop]) ∧
      (program.functions = [] → tokens = [] ∧ stop.kind = .endOfInput ∧
        program.span = .point stop.span.start) ∧
      (program.functions ≠ [] → ∀ node, (Node.program program).StandsIn node →
        (∃ before used behind, tokens = before ++ (used ++ behind) ∧
          node.DerivedFrom stop used ∧ node.span.Extends used) ∧
        (∀ child ∈ node.children, node.span.contains child.span) ∧
        node.children.Pairwise fun first second => first.span.Before second.span) := by
  refine ⟨fun beyond => ?_, ?_⟩
  · have answers : Session.Answers (.ofText source) .program _ :=
      Session.step_answers beyond .program rfl
    exact (congrArg Prod.fst answers.same).symm.trans accepted
  obtain ⟨tokens, stop, lexed, derived⟩ := parse_eq_ok_iff.1 accepted
  have laid : LaidOut source.toList 0 ((tokens ++ [stop]).map .ok) :=
    tokenize_eq_ok_iff.1 lexed ▸ (Cursor.isIn_ofText source).laidOut_results
  rw [List.map_append] at laid
  refine ⟨tokens, stop, lexed, fun empty => ?_, fun functions node inside => ?_⟩
  · cases derived with
    | intro derived =>
      obtain rfl := empty
      cases derived
      exact ⟨rfl, kind_of_tokenize lexed, rfl⟩
  · exact places_of_standsIn functions derived laid.of_append.1 inside

/-- A type with a comment in front of its mark: it starts with its name and stops with the mark. -/
theorem node_places_pointer : ∃ tokens stop before used behind,
    tokenize "func f(): T /*-*/ * ;" = .ok (tokens ++ [stop]) ∧
      tokens = before ++ (used ++ behind) ∧
      (Node.typeExpr ⟨.named "T", 1, ⟨⟨10, 1, 11⟩, ⟨19, 1, 20⟩⟩⟩).DerivedFrom stop used ∧
      Span.Extends ⟨⟨10, 1, 11⟩, ⟨19, 1, 20⟩⟩ used := by
  have accepted : parse "func f(): T /*-*/ * ;" = .ok ⟨[⟨⟨"f", ⟨⟨5, 1, 6⟩, ⟨6, 1, 7⟩⟩⟩, [],
      ⟨.named "T", 1, ⟨⟨10, 1, 11⟩, ⟨19, 1, 20⟩⟩⟩, none, ⟨⟨0, 1, 1⟩, ⟨21, 1, 22⟩⟩⟩],
      ⟨⟨0, 1, 1⟩, ⟨21, 1, 22⟩⟩⟩ := by
    decide +kernel
  obtain ⟨-, tokens, stop, lexed, -, places⟩ := node_places accepted
  obtain ⟨⟨before, used, behind, whole, derived, extent⟩, -⟩ :=
    places nofun _ (.child (.child .self List.mem_cons_self) (.tail _ List.mem_cons_self))
  exact ⟨tokens, stop, before, used, behind, lexed, whole, derived, extent⟩

end SableSyntax
