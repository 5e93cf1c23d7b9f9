/- SableSyntax/Proofs/Nesting/Bound
   digest: What the bound on nesting bounds: the levels open at once, and ways only through them. -/

import SableSyntax.Proofs.Nesting.Paths
import SableSyntax.Proofs.Parsing.FirstError

set_option autoImplicit false
set_option relaxedAutoImplicit false

namespace SableSyntax

open Grammar SableSyntax.Parser

/-- The expressions of what a text is read as: the text itself read as an expression, or the program
that it is. -/
def ReadFrom (source : String) (e : Expression) : Prop :=
  Parser.expression.runOn source = .ok e ∨
    ∃ program, parse source = .ok program ∧ e ∈ program.expressions

theorem ReadFrom.need_le {source : String} {e : Expression} (read : ReadFrom source e) :
    e.need ≤ maxNesting := by
  rcases read with h | ⟨program, h, member⟩
  · obtain ⟨reached, h⟩ := runOn_eq_ok_iff.1 h
    obtain ⟨used, -, readable⟩ := (expression_runs _).of_ok h
    exact readable.shallow
  · obtain ⟨tokens, stop, -, derived⟩ := parse_eq_ok_iff.1 h
    exact ((readable_restricts _ _).programRule stop |>.1 derived).2.2 e member

/-- The bound on nesting bounds the levels open at the end of each way through an expression that is
read, not the nodes on the way: there are no more of these than the bound if and only if the steps
into left operands are no more than the levels left over and those open aside. In any case the nodes
on a way are no more than all levels up to the bound make together, each counted with one more. -/
theorem ways_of_readFrom (source : String) (e : Expression) (read : ReadFrom source e)
    (way : List Step) (member : way ∈ e.ways) :
    openAt way ≤ maxNesting ∧
      (way.length ≤ maxNesting ↔
        way.count .left ≤ (maxNesting - openAt way) + openAside way) ∧
      2 * way.length ≤ maxNesting * (maxNesting + 3) := by
  have enough := Expression.need_le_iff.1 read.need_le way member
  have balance := length_add_openAside way
  have spine := e.leftSpine_le_need
  have nodes := Expression.length_le_of_need_le read.need_le member
  have shallow := read.need_le
  refine ⟨enough, by omega, ?_⟩
  simp only [maxNesting] at *
  omega

theorem ways_of_readFrom_link :
    openAt [.left, .inside] ≤ maxNesting ∧
      ([Step.left, .inside].length ≤ maxNesting ↔
        [Step.left, .inside].count .left ≤
          (maxNesting - openAt [.left, .inside]) + openAside [.left, .inside]) ∧
      2 * [Step.left, .inside].length ≤ maxNesting * (maxNesting + 3) :=
  ways_of_readFrom "(x) + y"
    (.binary .add
      (.parenthesized (.identifier "x" ⟨⟨1, 1, 2⟩, ⟨2, 1, 3⟩⟩) ⟨⟨0, 1, 1⟩, ⟨3, 1, 4⟩⟩)
      (.identifier "y" ⟨⟨6, 1, 7⟩, ⟨7, 1, 8⟩⟩) ⟨⟨0, 1, 1⟩, ⟨7, 1, 8⟩⟩)
    (.inl (by rfl)) [.left, .inside] (by decide)

/-- Expressions that can be read within some levels are read, apart from places, where their tokens
are written, by the readers that may open as many. -/
theorem exists_runOn_written {levels : Nat} {tokens : List Token} {e : Expression}
    (spelled : ∀ token ∈ tokens, token.WellSpelled)
    (readable : Readable levels .assignment tokens e) :
    ∃ e', (ExpressionReader.withLevels levels).expression.runOn (written tokens) = .ok e' ∧
      e'.unplaced = e.unplaced := by
  obtain ⟨tokens', stop, lexed, lexemes, lexemeStop⟩ := tokenize_written spelled
  obtain ⟨e', readable', same⟩ := readable_transports _ _ readable (.of_toLexeme_eq lexemes.symm)
  have ends : stop.EndsExpression := by
    have kind : stop.kind = .endOfInput := congrArg Lexeme.kind lexemeStop
    simp [Token.EndsExpression, kind, TokenKind.operatorRule?]
  have results := tokenize_eq_ok_iff.1 lexed
  rw [List.map_append] at results
  have found := ExpressionReader.finds readable'.derived readable'.inRange
  obtain ⟨reached, h, -⟩ := found.expression rfl readable'.shallow ends (.ofText _) results
  exact ⟨e', runOn_eq_ok_iff.2 ⟨reached, h⟩, same⟩

theorem exists_readFrom_written {tokens : List Token} {e : Expression}
    (spelled : ∀ token ∈ tokens, token.WellSpelled)
    (readable : Readable maxNesting .assignment tokens e) :
    ∃ e', ReadFrom (written tokens) e' ∧ e'.unplaced = e.unplaced := by
  obtain ⟨e', read, same⟩ := exists_runOn_written spelled readable
  exact ⟨e', .inl read, same⟩

/-- Within a number of levels a chain of a number of links can be read, with a number of nodes on a
way through it. -/
def Reaches (levels links nodes : Nat) : Prop :=
  ∃ tokens e way, (∀ token ∈ tokens, token.WellSpelled) ∧ Readable levels .additive tokens e ∧
    e.leftSpine = links ∧ way ∈ e.ways ∧ way.length = nodes

namespace Reaches

variable {levels links nodes : Nat}

theorem leaf (levels : Nat) : Reaches levels 0 0 := by
  refine ⟨[.sample .identifier], _, [], ?_, (Readable.name rfl).loosen (by decide), rfl,
    List.mem_singleton_self _, rfl⟩
  simpa using wellSpelled_sample (by decide)

theorem link (h : Reaches levels links nodes) (room : links < levels) :
    Reaches levels (links + 1) (nodes + 1) := by
  obtain ⟨tokens, e, way, spelled, readable, rfl, member, rfl⟩ := h
  obtain ⟨fewer, rfl⟩ : ∃ fewer, levels = fewer + 1 + e.leftSpine :=
    ⟨levels - 1 - e.leftSpine, by omega⟩
  have joins : Joins (Token.sample .plus).kind .add .additive .multiplicative := .plus
  have operand : Readable fewer .multiplicative [.sample .identifier] _ :=
    (Readable.name rfl).loosen (by decide)
  refine ⟨_, _, .left :: way, ?_, Readable.link joins readable operand, rfl, ?_, rfl⟩
  · have plus := @wellSpelled_sample .plus (by decide)
    have name := @wellSpelled_sample .identifier (by decide)
    simp only [List.mem_append, List.mem_cons, List.not_mem_nil, or_false]
    intro token member
    rcases member with member | rfl | rfl
    · exact spelled token member
    · exact plus
    · exact name
  · exact List.mem_append_left _ (List.mem_map_of_mem member)

theorem parenthesized (h : Reaches levels links nodes) : Reaches (levels + 1) 0 (nodes + 1) := by
  obtain ⟨tokens, e, way, spelled, readable, -, member, rfl⟩ := h
  have whole := Readable.parenthesized (kind_sample .leftParen) (readable.loosen (by decide))
    (kind_sample .rightParen)
  refine ⟨_, _, .inside :: way, ?_, whole.loosen (by decide), rfl, List.mem_map_of_mem member, rfl⟩
  have opens := @wellSpelled_sample .leftParen (by decide)
  have closes := @wellSpelled_sample .rightParen (by decide)
  simp only [List.mem_append, List.mem_cons, List.not_mem_nil, or_false]
  intro token member
  rcases member with rfl | member | rfl
  · exact opens
  · exact spelled token member
  · exact closes

theorem chain (h : Reaches levels 0 nodes) {links : Nat} (room : links ≤ levels) :
    Reaches levels links (nodes + links) := by
  induction links with
  | zero => exact h
  | succ links ih => exact (ih (by omega)).link room

end Reaches

/-- Chains within chains, each as long as the levels left over allow, have as many nodes on a way as
a way can have. -/
theorem exists_longest_way (levels : Nat) :
    ∃ nodes, Reaches levels levels nodes ∧ 2 * nodes = levels * (levels + 3) := by
  induction levels with
  | zero => exact ⟨0, .leaf 0, rfl⟩
  | succ levels ih =>
    -- The longest way so far goes into parentheses, and they to the left end of a chain.
    obtain ⟨nodes, reaches, double⟩ := ih
    refine ⟨nodes + 1 + (levels + 1), reaches.parenthesized.chain (Nat.le_refl _), ?_⟩
    have square : levels * (levels + 1 + 3) = levels * (levels + 3) + levels := by
      rw [Nat.add_right_comm, Nat.mul_succ]
    rw [Nat.add_mul, square, ← double]
    omega

def enclosed (levels : Nat) : List Token :=
  List.replicate levels (.sample .leftParen) ++
    .sample .integer :: List.replicate levels (.sample .rightParen)

theorem exists_readable_enclosed (levels : Nat) :
    ∃ e, Readable levels .primary (enclosed levels) e ∧ List.replicate levels .inside ∈ e.ways := by
  induction levels with
  | zero => exact ⟨_, .integer rfl (by decide), List.mem_singleton_self _⟩
  | succ levels ih =>
    obtain ⟨e, readable, member⟩ := ih
    have whole := Readable.parenthesized (kind_sample .leftParen) (readable.loosen (by decide))
      (kind_sample .rightParen)
    have same : enclosed (levels + 1) =
        .sample .leftParen :: (enclosed levels ++ [.sample .rightParen]) := by
      rw [enclosed, enclosed, List.replicate_succ, List.replicate_succ']
      simp
    exact ⟨_, same ▸ whole, List.mem_map_of_mem member⟩

/-- A number in as many parentheses as levels may be open, and a link behind it: the text
`( ( … 0 … ) ) + 0 `. -/
def crowded : List Token := enclosed maxNesting ++ [.sample .plus, .sample .integer]

/-- The levels of a left operand are released before the link behind it opens one, so that a way may
have more nodes than the bound. -/
theorem exists_way_longer_than_maxNesting :
    ∃ e, ReadFrom (written crowded) e ∧ ∃ way ∈ e.ways, maxNesting < way.length := by
  obtain ⟨e, readable, member⟩ := exists_readable_enclosed maxNesting
  have joins : Joins (Token.sample .plus).kind .add .additive .multiplicative := .plus
  have spine := readable.derived.leftSpine_of_primary
  have before : Readable (maxNesting - 1 + 1 + e.leftSpine) .additive (enclosed maxNesting) e :=
    spine ▸ readable.loosen (by decide)
  have operand : Readable (maxNesting - 1) .multiplicative [.sample .integer] _ :=
    (Readable.integer rfl (by decide)).loosen (by decide)
  have whole : Readable maxNesting .assignment crowded _ :=
    (spine ▸ Readable.link joins before operand).loosen (by decide)
  have spelled : ∀ token ∈ crowded, token.WellSpelled := by
    simp only [crowded, enclosed, List.mem_append, List.mem_cons, List.mem_replicate,
      List.not_mem_nil, or_false]
    rintro token ((⟨-, rfl⟩ | rfl | ⟨-, rfl⟩) | rfl | rfl) <;> exact wellSpelled_sample (by decide)
  obtain ⟨e', read, same⟩ := exists_readFrom_written spelled whole
  refine ⟨e', read, .left :: List.replicate maxNesting .inside, ?_, by simp⟩
  rw [← Expression.ways_unplaced, same, Expression.ways_unplaced]
  exact List.mem_append_left _ (List.mem_map_of_mem member)

end SableSyntax
