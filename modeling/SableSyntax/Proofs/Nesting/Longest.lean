/- SableSyntax/Proofs/Nesting/Longest
   digest: The most nodes on a way through an expression that is read, for each bound on nesting. -/

import Mathlib.Order.Bounds.Defs
import SableSyntax.Proofs.Nesting.Bound

set_option autoImplicit false
set_option relaxedAutoImplicit false

namespace SableSyntax

open Grammar SableSyntax.Parser
open ExpressionReader (withLevels withLevels_sound)

/-- What readers with a number of levels give has no longer way than all levels up to that number
make together, each counted with one more, from whatever state they read. -/
theorem length_le_of_read {levels : Nat} {state reached : ParserState} {e : Expression}
    (read : (withLevels levels).expression state = .ok e reached) {way : List Step}
    (member : way ∈ e.ways) : way.length ≤ levels * (levels + 3) / 2 := by
  obtain ⟨used, -, readable⟩ := ((withLevels_sound levels).expression state).of_ok read
  have nodes := Expression.length_le_of_need_le readable.shallow member
  have spine : e.leftSpine ≤ levels := Nat.le_trans e.leftSpine_le_need readable.shallow
  have sum : levels * (levels + 3) = 2 * levels + levels * (levels + 1) := by
    rw [Nat.mul_add levels levels 3, Nat.mul_add levels levels 1]
    omega
  rw [Nat.le_div_iff_mul_le Nat.two_pos]
  omega

theorem exists_read_of_longest_way (levels : Nat) :
    ∃ source e way, (withLevels levels).expression.runOn source = .ok e ∧ way ∈ e.ways ∧
      way.length = levels * (levels + 3) / 2 := by
  obtain ⟨_, ⟨tokens, e, way, spelled, readable, -, member, rfl⟩, double⟩ :=
    exists_longest_way levels
  obtain ⟨e', read, same⟩ := exists_runOn_written spelled (readable.loosen (by decide))
  refine ⟨written tokens, e', way, read, ?_, by omega⟩
  rwa [← Expression.ways_unplaced, same, Expression.ways_unplaced]

/-- The worst case of an expression that is read. With a bound of `M` levels the nodes on a way from
the root to a leaf are `M * (M + 3) / 2` at most, wherever in a text and behind whatever calls the
expression is read, and there is a text that is read with as many; this holds of every `M`, and the
bound on nesting makes it 33152. -/
theorem isGreatest_length_of_ways :
    (∀ levels, IsGreatest
      {nodes | ∃ source e way, (withLevels levels).expression.runOn source = .ok e ∧
        way ∈ e.ways ∧ way.length = nodes} (levels * (levels + 3) / 2)) ∧
    IsGreatest
      {nodes | ∃ source e way, Parser.expression.runOn source = .ok e ∧
        way ∈ e.ways ∧ way.length = nodes} 33152 ∧
    ∀ state e reached, Parser.expression state = .ok e reached →
      ∀ way ∈ e.ways, way.length ≤ 33152 := by
  have greatest (levels : Nat) : IsGreatest
      {nodes | ∃ source e way, (withLevels levels).expression.runOn source = .ok e ∧
        way ∈ e.ways ∧ way.length = nodes} (levels * (levels + 3) / 2) := by
    refine ⟨exists_read_of_longest_way levels, ?_⟩
    rintro nodes ⟨source, e, way, read, member, rfl⟩
    obtain ⟨reached, read⟩ := runOn_eq_ok_iff.1 read
    exact length_le_of_read read member
  exact ⟨greatest, greatest maxNesting, fun _ _ _ read _ member => length_le_of_read read member⟩

end SableSyntax
