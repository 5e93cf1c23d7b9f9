/- SableSyntax/Proofs/Syntax/Signs
   digest: Numbers and trees that are the same but for the signs of zeros. -/

import SableSyntax.Proofs.Number.Texts
import SableSyntax.Proofs.Syntax.Places

set_option autoImplicit false
set_option relaxedAutoImplicit false

namespace SableSyntax

namespace Binary64

variable {x y : Binary64}

theorem magnitude_eq_of_beq (equal : (x == y) = true) :
    x.isNaN = false ∧ x.magnitude = y.magnitude := by
  simp only [BEq.beq, Bool.and_eq_true, Bool.or_eq_true, Bool.not_eq_true', decide_eq_true_eq]
    at equal
  obtain ⟨⟨number, -⟩, same | ⟨zero, zero'⟩⟩ := equal
  · exact ⟨number, by rw [magnitude, same, magnitude]⟩
  · exact ⟨number, zero.trans zero'.symm⟩

end Binary64

/-- Whether no float of an expression has its sign bit set. -/
def Expression.IsUnsigned : Expression → Prop
  | .assignment _ value _ => value.IsUnsigned
  | .binary _ left right _ => left.IsUnsigned ∧ right.IsUnsigned
  | .identifier _ _ | .integer _ _ => True
  | .float value _ => value.isNegative = false
  | .parenthesized inner _ => inner.IsUnsigned

section Agreement

theorem Expression.unplaced_eq_of_agrees {a b : Expression} (equal : a.agrees b)
    (plain : a.IsUnsigned) (plain' : b.IsUnsigned) : a.unplaced = b.unplaced := by
  induction a generalizing b with
  | assignment target value span ih =>
    cases b <;> simp only [agrees, Bool.and_eq_true, Bool.false_eq_true] at equal
    have name : target.name = _ := of_decide_eq_true equal.1
    simp only [unplaced, Identifier.unplaced, name, ih equal.2 plain plain']
  | binary operator left right span ihLeft ihRight =>
    cases b <;> simp only [agrees, Bool.and_eq_true, decide_eq_true_eq, Bool.false_eq_true] at equal
    simp only [unplaced, equal.1.1, ihLeft equal.1.2 plain.1 plain'.1,
      ihRight equal.2 plain.2 plain'.2]
  | identifier name span | integer value span =>
    cases b <;> simp only [agrees, beq_iff_eq, Bool.false_eq_true] at equal
    simp only [unplaced, equal]
  | float value span =>
    cases b <;> simp only [agrees, Bool.false_eq_true] at equal
    have same := (Binary64.magnitude_eq_of_beq equal).2
    simp only [unplaced, Binary64.eq_of_magnitude_eq (plain.trans plain'.symm) same]
  | parenthesized inner span ih =>
    cases b <;> simp only [agrees, Bool.false_eq_true] at equal
    simp only [unplaced, ih equal plain plain']

theorem map_eq_of_list_beq {α β : Type} [BEq α] {f : α → β} {as bs : List α}
    (equal : (as == bs) = true) (each : ∀ a ∈ as, ∀ b ∈ bs, (a == b) = true → f a = f b) :
    as.map f = bs.map f := by
  induction as generalizing bs with
  | nil =>
    cases bs with
    | nil => rfl
    | cons b bs => cases equal
  | cons a as ih =>
    cases bs with
    | nil => cases equal
    | cons b bs =>
      simp only [List.cons_beq_cons, Bool.and_eq_true] at equal
      simp only [List.forall_mem_cons] at each
      rw [List.map_cons, List.map_cons, each.1.1 equal.1,
        ih equal.2 fun a member => (each.2 a member).2]

theorem map_eq_of_option_beq {α β : Type} [BEq α] {f : α → β} {a b : Option α}
    (equal : (a == b) = true)
    (each : ∀ x, a = some x → ∀ y, b = some y → (x == y) = true → f x = f y) :
    a.map f = b.map f := by
  cases a with
  | none =>
    cases b with
    | none => rfl
    | some y => cases equal
  | some x =>
    cases b with
    | none => cases equal
    | some y => exact congrArg some (each x rfl y rfl equal)

theorem Identifier.unplaced_eq_of_beq {a b : Identifier} (equal : (a == b) = true) :
    a.unplaced = b.unplaced := by
  have name : a.name = b.name := of_decide_eq_true equal
  rw [unplaced, name, unplaced]

theorem TypeExpr.unplaced_eq_of_beq {a b : TypeExpr} (equal : (a == b) = true) :
    a.unplaced = b.unplaced := by
  obtain ⟨base, pointers⟩ := Bool.and_eq_true_iff.1 equal
  rw [unplaced, of_decide_eq_true base, beq_iff_eq.1 pointers, unplaced]

theorem Parameter.unplaced_eq_of_beq {a b : Parameter} (equal : (a == b) = true) :
    a.unplaced = b.unplaced := by
  obtain ⟨name, type⟩ := Bool.and_eq_true_iff.1 equal
  rw [unplaced, Identifier.unplaced_eq_of_beq name, TypeExpr.unplaced_eq_of_beq type, unplaced]

theorem Statement.unplaced_eq_of_beq {a b : Statement} (equal : (a == b) = true)
    (plain : a.content.IsUnsigned) (plain' : b.content.IsUnsigned) : a.unplaced = b.unplaced := by
  rcases a with ⟨name, type, initializer, span⟩ | ⟨value, span⟩ <;>
    rcases b with ⟨name', type', initializer', span'⟩ | ⟨value', span'⟩
  · have equal : (name == name' && type == type' && initializer == initializer') = true := equal
    simp only [Bool.and_eq_true] at equal
    obtain ⟨⟨name, types⟩, values⟩ := equal
    have types : type.map TypeExpr.unplaced = type'.map TypeExpr.unplaced :=
      map_eq_of_option_beq types fun _ _ _ _ => TypeExpr.unplaced_eq_of_beq
    rw [unplaced, Identifier.unplaced_eq_of_beq name, types,
      Expression.unplaced_eq_of_agrees values plain plain', unplaced]
  · cases equal
  · cases equal
  · rw [unplaced, Expression.unplaced_eq_of_agrees equal plain plain', unplaced]

theorem Block.unplaced_eq_of_beq {a b : Block} (equal : (a == b) = true)
    (plain : ∀ e ∈ a.expressions, e.IsUnsigned) (plain' : ∀ e ∈ b.expressions, e.IsUnsigned) :
    a.unplaced = b.unplaced := by
  have same : a.statements.map Statement.unplaced = b.statements.map Statement.unplaced :=
    map_eq_of_list_beq equal fun s member s' member' equal =>
      Statement.unplaced_eq_of_beq equal (plain _ (List.mem_map_of_mem member))
        (plain' _ (List.mem_map_of_mem member'))
  rw [unplaced, same, unplaced]

theorem Function.unplaced_eq_of_beq {a b : Function} (equal : (a == b) = true)
    (plain : ∀ e ∈ a.expressions, e.IsUnsigned) (plain' : ∀ e ∈ b.expressions, e.IsUnsigned) :
    a.unplaced = b.unplaced := by
  have equal : (a.name == b.name && a.parameters == b.parameters &&
    a.returnType == b.returnType && a.body == b.body) = true := equal
  simp only [Bool.and_eq_true] at equal
  obtain ⟨⟨⟨name, parameters⟩, type⟩, body⟩ := equal
  have parameters : a.parameters.map Parameter.unplaced = b.parameters.map Parameter.unplaced :=
    map_eq_of_list_beq parameters fun _ _ _ _ => Parameter.unplaced_eq_of_beq
  have body : a.body.map Block.unplaced = b.body.map Block.unplaced := by
    refine map_eq_of_option_beq body fun block defined block' defined' equal => ?_
    simp only [expressions, defined, defined', Option.elim] at plain plain'
    exact Block.unplaced_eq_of_beq equal plain plain'
  rw [unplaced, Identifier.unplaced_eq_of_beq name, parameters, TypeExpr.unplaced_eq_of_beq type,
    body, unplaced]

theorem Program.unplaced_eq_of_beq {a b : Program} (equal : (a == b) = true)
    (plain : ∀ e ∈ a.expressions, e.IsUnsigned) (plain' : ∀ e ∈ b.expressions, e.IsUnsigned) :
    a.unplaced = b.unplaced := by
  have same : a.functions.map Function.unplaced = b.functions.map Function.unplaced :=
    map_eq_of_list_beq equal fun f member f' member' equal =>
      Function.unplaced_eq_of_beq equal
        (fun e inside => plain e (List.mem_flatMap_of_mem member inside))
        fun e inside => plain' e (List.mem_flatMap_of_mem member' inside)
  rw [unplaced, same, unplaced]

end Agreement

end SableSyntax
