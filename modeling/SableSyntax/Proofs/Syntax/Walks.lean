/- SableSyntax/Proofs/Syntax/Walks
   digest: What a visitor comes by, told by the positions of the nodes in the tree. -/

import Mathlib.Data.List.Lex
import SableSyntax.Proofs.Syntax.Nodes

set_option autoImplicit false
set_option relaxedAutoImplicit false

namespace SableSyntax

namespace Node

/-- What goes up from the nodes directly below a node to the node holds of all nodes. -/
@[elab_as_elim]
theorem induct {motive : Node → Prop}
    (step : ∀ node : Node, (∀ child ∈ node.children, motive child) → motive node) (node : Node) :
    motive node := by
  have identifier (name : Identifier) : motive (.identifier name) := step _ (by simp [children])
  have typeExpr (type : TypeExpr) : motive (.typeExpr type) := step _ (by simp [children])
  have expression (value : Expression) : motive (.expression value) := by
    induction value with
    | assignment target value span ih => exact step _ (by simp [children, identifier, ih])
    | binary operator left right span ih ih' => exact step _ (by simp [children, ih, ih'])
    | parenthesized inner span ih => exact step _ (by simp [children, ih])
    | identifier | integer | float => exact step _ (by simp [children])
  have statement (statement : Statement) : motive (.statement statement) := by
    cases statement with
    | «variable» name declaredType initializer span =>
      refine step _ ?_
      simp [children, or_imp, forall_and, identifier, typeExpr, expression]
    | expression value span => exact step _ (by simp [children, expression])
  have block (block : Block) : motive (.block block) := step _ (by simp [children, statement])
  have parameter (parameter : Parameter) : motive (.parameter parameter) :=
    step _ (by simp [children, identifier, typeExpr])
  have function (function : Function) : motive (.function function) := by
    refine step _ ?_
    simp [children, or_imp, forall_and, identifier, parameter, typeExpr, block]
  cases node with
  | program program => exact step _ (by simp [children, function])
  | function node => exact function node
  | parameter node => exact parameter node
  | typeExpr node => exact typeExpr node
  | block node => exact block node
  | statement node => exact statement node
  | expression node => exact expression node
  | identifier node => exact identifier node

instance : WellFoundedRelation Node where
  rel child parent := child ∈ parent.children
  wf := ⟨induct fun node below => ⟨node, below⟩⟩

/-- The node that a path leads to: each entry is the number of a node directly below the last. -/
def at? : Node → List Nat → Option Node
  | node, [] => some node
  | node, index :: path => node.children[index]?.bind (·.at? path)

/-- All nodes of a tree with the paths to them, a node before those below it. -/
def occurrences (node : Node) : List (List Nat × Node) :=
  ([], node) :: node.children.attach.zipIdx.flatMap fun (child, index) =>
    child.1.occurrences.map fun (path, below) => (index :: path, below)
termination_by node
decreasing_by exact child.2

theorem occurrences_eq (node : Node) : node.occurrences =
    ([], node) :: node.children.zipIdx.flatMap fun (child, index) =>
      child.occurrences.map fun (path, below) => (index :: path, below) := by
  rw [occurrences]
  conv_rhs => rw [← node.children.attach_map_subtype_val, List.zipIdx_map, List.flatMap_map]
  rfl

section Positions

variable {root node : Node} {path : List Nat}

/-- The nodes of a tree are those that some path leads to, each with its path. -/
theorem mem_occurrences_iff : (path, node) ∈ root.occurrences ↔ root.at? path = some node := by
  induction root using induct generalizing path with
  | step root ih =>
    rw [occurrences_eq, List.mem_cons, List.mem_flatMap]
    cases path with
    | nil => simp [at?, eq_comm]
    | cons index path =>
      simp only [at?, Option.bind_eq_some_iff, Prod.exists, List.mem_zipIdx_iff_getElem?,
        List.mem_map, Prod.mk.injEq, List.cons.injEq, reduceCtorEq, false_and, false_or]
      constructor
      · rintro ⟨child, _, found, _, _, member, ⟨rfl, rfl⟩, rfl⟩
        exact ⟨child, found, (ih child (List.mem_of_getElem? found)).1 member⟩
      · rintro ⟨child, found, leads⟩
        have member := (ih child (List.mem_of_getElem? found)).2 leads
        exact ⟨child, index, found, path, node, member, ⟨rfl, rfl⟩, rfl⟩

/-- The nodes of a tree are listed by their paths in order, each once: one node before another if
its path is the start of the other path, or turns off to an earlier node. -/
theorem pairwise_occurrences (root : Node) :
    root.occurrences.Pairwise fun first second => List.Lex (· < ·) first.1 second.1 := by
  induction root using induct with
  | step root ih =>
    rw [occurrences_eq, List.pairwise_cons, List.pairwise_flatMap]
    refine ⟨fun other member => ?_, fun entry member => ?_, ?_⟩
    · obtain ⟨entry, -, member⟩ := List.mem_flatMap.1 member
      obtain ⟨below, -, rfl⟩ := List.mem_map.1 member
      exact .nil
    · have found := ih entry.1 (List.fst_mem_of_mem_zipIdx member)
      exact List.pairwise_map.2 (found.imp .cons)
    · have turns : root.children.zipIdx.Pairwise fun first second => first.2 < second.2 := by
        rw [← List.pairwise_map, List.zipIdx_map_snd]
        exact List.pairwise_lt_range'
      refine turns.imp fun turn first member second member' => ?_
      obtain ⟨_, -, rfl⟩ := List.mem_map.1 member
      obtain ⟨_, -, rfl⟩ := List.mem_map.1 member'
      exact .rel turn

/-- Whether a walk gets to the end of a path, if it goes on at some kinds of nodes only. -/
def reaches (walks : NodeKind → Bool) : Node → List Nat → Bool
  | _, [] => true
  | node, index :: path =>
    walks node.kind && node.children[index]?.any (·.reaches walks path)

theorem reaches_iff {walks : NodeKind → Bool} (found : root.at? path = some node) :
    root.reaches walks path ↔ ∀ above below, path = above ++ below → below ≠ [] →
      ∀ parent, root.at? above = some parent → walks parent.kind := by
  induction path generalizing root with
  | nil => simp [reaches]
  | cons index path ih =>
    obtain ⟨child, leads, found⟩ := Option.bind_eq_some_iff.1 found
    simp only [reaches, leads, Option.any_some, Bool.and_eq_true, ih found]
    constructor
    · rintro ⟨atRoot, further⟩ above below whole nonempty parent stands
      cases above with
      | nil => exact Option.some.inj stands ▸ atRoot
      | cons turn above =>
        obtain ⟨rfl, same⟩ := List.cons.inj whole
        simp only [at?, leads, Option.bind_some] at stands
        exact further above below same nonempty parent stands
    · intro all
      refine ⟨all [] (index :: path) rfl (List.cons_ne_nil _ _) root rfl, ?_⟩
      intro above below whole nonempty parent stands
      refine all (index :: above) below (by rw [whole, List.cons_append]) nonempty parent ?_
      rw [at?, leads]
      exact stands

end Positions

end Node

def VisitEvent.isEnter : VisitEvent → Bool
  | .enter _ => true
  | .leave _ => false

def VisitEvent.node : VisitEvent → Node
  | .enter node | .leave node => node

namespace Visitor

variable {σ : Type}

def visit (visitor : Visitor σ) : Node → σ → σ
  | .program node => visitor.visitProgram node
  | .function node => visitor.visitFunction node
  | .parameter node => visitor.visitParameter node
  | .typeExpr node => visitor.visitType node
  | .block node => visitor.visitBlock node
  | .statement node => visitor.visitStatement node
  | .expression node => visitor.visitExpression node
  | .identifier node => visitor.visitIdentifier node

/-- A visitor is given each node with the walk through the nodes directly below it. -/
theorem visit_eq (visitor : Visitor σ) (node : Node) : visitor.visit node =
    visitor node fun state =>
      node.children.foldl (fun state child => visitor.visit child state) state := by
  cases node with
  | program | block => simp only [Node.children, List.foldl_map]; rfl
  | function =>
    simp only [Node.children, List.foldl_cons, List.foldl_append, List.foldl_map]
    rfl
  | statement node =>
    cases node with
    | «variable» =>
      simp only [Node.children, List.foldl_cons, List.foldl_append, List.foldl_map]
      rfl
    | expression => rfl
  | expression node => cases node <;> rfl
  | parameter | typeExpr | identifier => rfl

/-- A visitor that writes down when it enters and when it leaves nodes of some kinds, and takes the
walk at nodes of some kinds. -/
def writing (enters leaves walks : NodeKind → Bool) : Visitor (List VisitEvent) :=
  fun node walk events =>
    let entered := if enters node.kind then events ++ [.enter node] else events
    let walked := if walks node.kind then walk entered else entered
    if leaves node.kind then walked ++ [.leave node] else walked

theorem recording_eq_writing {reaction : NodeKind → Reaction}
    (noAfter : ∀ kind, reaction kind ≠ .after) :
    recording reaction = writing (reaction · != .pass) (reaction · == .around)
      (reaction · != .only) := by
  funext node walk events
  have other := noAfter node.kind
  unfold recording writing
  cases same : reaction node.kind <;> simp_all

section Writing

variable {enters leaves walks : NodeKind → Bool}

theorem foldl_eq_append {α β : Type} {step : List β → α → List β} {items : List α}
    {added : α → List β} (each : ∀ item ∈ items, ∀ before, step before item = before ++ added item)
    (before : List β) : items.foldl step before = before ++ items.flatMap added := by
  induction items generalizing before with
  | nil => simp
  | cons item items ih =>
    rw [List.forall_mem_cons] at each
    rw [List.foldl_cons, each.1, ih each.2, List.flatMap_cons, List.append_assoc]

/-- What is written down at a node and below it. -/
def written (enters leaves walks : NodeKind → Bool) (node : Node) : List VisitEvent :=
  (writing enters leaves walks).visit node []

/-- What is written down at a node comes behind what was written before, and is made up of what is
written for the node itself and, where the walk is taken, for those directly below. -/
theorem visit_writing (node : Node) (before : List VisitEvent) :
    (writing enters leaves walks).visit node before =
      before ++ ((if enters node.kind then [.enter node] else []) ++
        ((if walks node.kind then node.children.flatMap (written enters leaves walks) else []) ++
          if leaves node.kind then [.leave node] else [])) := by
  induction node using Node.induct generalizing before with
  | step node ih =>
    have each (child : Node) (member : child ∈ node.children) (before : List VisitEvent) :
        (writing enters leaves walks).visit child before =
          before ++ written enters leaves walks child := by
      rw [written, ih child member before, ih child member [], List.nil_append]
    rw [visit_eq, writing]
    simp only [foldl_eq_append each]
    split <;> split <;> split <;> simp

theorem written_eq (node : Node) : written enters leaves walks node =
    (if enters node.kind then [.enter node] else []) ++
      ((if walks node.kind then node.children.flatMap (written enters leaves walks) else []) ++
        if leaves node.kind then [.leave node] else []) :=
  (visit_writing node []).trans (List.nil_append _)

/-- Where a leave is never written down, what is written are the nodes of the right kinds that a
walk gets to, in the order of their paths. -/
theorem written_eq_map_occurrences (node : Node) :
    written enters (fun _ => false) walks node =
      (node.occurrences.filter fun (path, below) =>
        enters below.kind && node.reaches walks path).map fun (_, below) => .enter below := by
  induction node using Node.induct with
  | step node ih =>
    -- Below a child the same nodes are written, if the walk is taken at all.
    have each (entry : Node × Nat) (member : entry ∈ node.children.zipIdx) :
        (((entry.1.occurrences.map fun (path, below) => (entry.2 :: path, below)).filter
          fun (path, below) => enters below.kind && node.reaches walks path).map
            fun (_, below) => VisitEvent.enter below) =
        if walks node.kind then written enters (fun _ => false) walks entry.1 else [] := by
      have leads : node.children[entry.2]? = some entry.1 := List.mem_zipIdx_iff_getElem?.1 member
      rw [ih entry.1 (List.fst_mem_of_mem_zipIdx member), List.filter_map, List.map_map]
      simp only [Function.comp_def, Node.reaches, leads, Option.any_some]
      split
      · next goesOn => simp only [goesOn, Bool.true_and]
      · next stops => simp [stops]
    have below : (node.children.zipIdx.flatMap fun entry =>
        if walks node.kind then written enters (fun _ => false) walks entry.1 else []) =
        if walks node.kind then node.children.flatMap (written enters (fun _ => false) walks)
        else [] := by
      split
      · conv_rhs => rw [← node.children.zipIdx_map_fst 0, List.flatMap_map]
      · exact List.flatMap_eq_nil_iff.2 fun _ _ => rfl
    rw [Node.occurrences_eq, written_eq, ← below, ← List.flatMap_congr each, List.filter_cons,
      List.filter_flatMap]
    by_cases enter : enters node.kind <;> simp [enter, Node.reaches, List.map_flatMap]

theorem filter_isEnter_written (node : Node) :
    (written enters leaves walks node).filter VisitEvent.isEnter =
      written enters (fun _ => false) walks node := by
  induction node using Node.induct with
  | step node ih =>
    rw [written_eq, written_eq node, List.filter_append, List.filter_append]
    congr 1
    · split <;> rfl
    · congr 1
      · split
        · rw [List.filter_flatMap]
          exact List.flatMap_congr ih
        · rfl
      · split <;> rfl

end Writing

end Visitor

/-- Whether every record of a node that is entered is followed by one of its being left, with
records of the same form between them and behind them. -/
inductive Balanced : List VisitEvent → Prop
  | nil : Balanced []
  | node {node : Node} {inside behind : List VisitEvent} (inner : Balanced inside)
    (more : Balanced behind) : Balanced (.enter node :: (inside ++ .leave node :: behind))

namespace Balanced

variable {first second : List VisitEvent}

theorem append (h : Balanced first) (h' : Balanced second) : Balanced (first ++ second) := by
  induction h with
  | nil => exact h'
  | node inner more ih ih' =>
    rw [List.cons_append, List.append_assoc, List.cons_append]
    exact .node inner ih'

theorem flatMap {α : Type} {items : List α} {events : α → List VisitEvent}
    (each : ∀ item ∈ items, Balanced (events item)) : Balanced (items.flatMap events) := by
  induction items with
  | nil => exact .nil
  | cons item items ih =>
    rw [List.forall_mem_cons] at each
    rw [List.flatMap_cons]
    exact each.1.append (ih each.2)

theorem written {enters walks : NodeKind → Bool} (node : Node) :
    Balanced (Visitor.written enters enters walks node) := by
  induction node using Node.induct with
  | step node ih =>
    have below : Balanced (if walks node.kind then
        node.children.flatMap (Visitor.written enters enters walks) else []) := by
      split
      · exact .flatMap ih
      · exact .nil
    rw [Visitor.written_eq]
    by_cases enter : enters node.kind
    · rw [if_pos enter, if_pos enter]
      exact .node below .nil
    · rw [if_neg enter, if_neg enter, List.nil_append, List.append_nil]
      exact below

end Balanced

end SableSyntax
