/- SableSyntax/Proofs/Nesting/Paths
   digest: Ways from the root of an expression to its leaves, and the levels open at their ends. -/

import SableSyntax.Proofs.Syntax.Places

set_option autoImplicit false
set_option relaxedAutoImplicit false

namespace SableSyntax

/-- How a way leaves a node that has parts: into parentheses or the value of an assignment, into a
left operand, or into the right operand of a link that a number of links stand before. -/
inductive Step
  | inside | left | right (before : Nat)
  deriving DecidableEq, Repr

namespace Step

/-- The levels that reading opens with a step. The links of a chain are open around each right
operand behind them, and none of them around the left operand. -/
def opened : Step → Nat
  | inside => 1
  | left => 0
  | right before => before + 1

def aside : Step → Nat
  | right before => before
  | _ => 0

end Step

def openAt : List Step → Nat
  | [] => 0
  | step :: way => step.opened + openAt way

def openAside : List Step → Nat
  | [] => 0
  | step :: way => step.aside + openAside way

namespace Expression

/-- All ways from an expression to its leaves. The nodes on a way, the leaf not counted, are its
steps. -/
def ways : Expression → List (List Step)
  | .assignment _ value _ => value.ways.map (.inside :: ·)
  | .binary _ left right _ =>
    left.ways.map (.left :: ·) ++ right.ways.map (.right left.leftSpine :: ·)
  | .parenthesized inner _ => inner.ways.map (.inside :: ·)
  | _ => [[]]

@[simp] theorem ways_unplaced (e : Expression) : e.unplaced.ways = e.ways := by
  induction e <;> simp_all [unplaced, ways]

private theorem openAt_cons (step : Step) (way : List Step) :
    openAt (step :: way) = step.opened + openAt way := by
  simp [openAt]

theorem openAt_le_need {e : Expression} {way : List Step} (member : way ∈ e.ways) :
    openAt way ≤ e.need := by
  induction e generalizing way with
  | assignment _ _ _ ih | parenthesized _ _ ih =>
    obtain ⟨rest, further, rfl⟩ := List.mem_map.1 member
    have := ih further
    simp only [openAt_cons, Step.opened, need]
    omega
  | binary operator left right span ihLeft ihRight =>
    rcases List.mem_append.1 member with member | member
    · obtain ⟨rest, further, rfl⟩ := List.mem_map.1 member
      have := ihLeft further
      simp only [openAt_cons, Step.opened, need]
      omega
    · obtain ⟨rest, further, rfl⟩ := List.mem_map.1 member
      have := ihRight further
      simp only [openAt_cons, Step.opened, need]
      omega
  | identifier | integer | float =>
    obtain rfl : way = [] := by simpa [ways] using member
    exact Nat.zero_le _

theorem exists_openAt_eq_need (e : Expression) : ∃ way ∈ e.ways, openAt way = e.need := by
  induction e with
  | assignment _ _ _ ih | parenthesized _ _ ih =>
    obtain ⟨way, member, same⟩ := ih
    refine ⟨.inside :: way, List.mem_map_of_mem member, ?_⟩
    simp only [openAt_cons, Step.opened, need, same]
    omega
  | binary operator left right span ihLeft ihRight =>
    obtain ⟨way, member, same⟩ := ihLeft
    obtain ⟨way', member', same'⟩ := ihRight
    by_cases larger : left.leftSpine + 1 + right.need ≤ left.need
    · refine ⟨.left :: way, List.mem_append_left _ (List.mem_map_of_mem member), ?_⟩
      simp only [openAt_cons, Step.opened, need, same]
      omega
    · refine ⟨.right left.leftSpine :: way', ?_, ?_⟩
      · exact List.mem_append_right _ (List.mem_map_of_mem member')
      simp only [openAt_cons, Step.opened, need, same']
      omega
  | identifier | integer | float => exact ⟨[], List.mem_singleton_self _, rfl⟩

theorem need_le_iff {e : Expression} {levels : Nat} :
    e.need ≤ levels ↔ ∀ way ∈ e.ways, openAt way ≤ levels := by
  constructor
  · exact fun enough way member => Nat.le_trans (openAt_le_need member) enough
  · intro each
    obtain ⟨way, member, same⟩ := e.exists_openAt_eq_need
    exact same ▸ each way member

private theorem triangle_le {fewer levels : Nat} (h : fewer < levels) :
    2 * (fewer + 1) + fewer * (fewer + 1) ≤ levels * (levels + 1) := by
  have := Nat.mul_le_mul h (Nat.succ_le_succ h)
  simp only [Nat.succ_eq_add_one] at this
  rw [Nat.add_mul, Nat.mul_add] at this
  rw [Nat.mul_add]
  omega

/-- A way through left operands starts over at the innermost of them, with at least one level more
open than the links it went through allow for. -/
theorem length_le_of_need_le {e : Expression} {levels : Nat} (enough : e.need ≤ levels)
    {way : List Step} (member : way ∈ e.ways) :
    2 * way.length ≤ 2 * e.leftSpine + levels * (levels + 1) := by
  induction e generalizing levels way with
  | assignment _ value _ ih | parenthesized value _ ih =>
    obtain ⟨rest, further, rfl⟩ := List.mem_map.1 member
    simp only [need] at enough
    have := ih (Nat.le_refl _) further
    have := value.leftSpine_le_need
    have := triangle_le enough
    simp only [List.length_cons, leftSpine]
    omega
  | binary operator left right span ihLeft ihRight =>
    simp only [need] at enough
    rcases List.mem_append.1 member with member | member
    · obtain ⟨rest, further, rfl⟩ := List.mem_map.1 member
      have := ihLeft (show left.need ≤ levels by omega) further
      simp only [List.length_cons, leftSpine]
      omega
    · obtain ⟨rest, further, rfl⟩ := List.mem_map.1 member
      have := ihRight (Nat.le_refl _) further
      -- The way starts over in a right operand, where fewer levels are left.
      have := right.leftSpine_le_need
      have := triangle_le (show right.need < levels by omega)
      simp only [List.length_cons, leftSpine]
      omega
  | identifier | integer | float =>
    obtain rfl : way = [] := by simpa [ways] using member
    simp

end Expression

/-- A way has as many steps as levels are open at its end, but for the links aside and for the steps
into left operands, which open none. -/
theorem length_add_openAside (way : List Step) :
    way.length + openAside way = openAt way + way.count .left := by
  induction way with
  | nil => rfl
  | cons step way ih =>
    simp only [openAside, openAt] at ih ⊢
    cases step <;> simp [Step.opened, Step.aside] <;> omega

end SableSyntax
