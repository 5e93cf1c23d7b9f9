/- SableSyntax/Proofs/Printing/Signs
   digest: What the signs of zeros make of the text of a tree. -/

import SableSyntax.Proofs.Printing.Trees
import SableSyntax.Proofs.Syntax.Signs

set_option autoImplicit false
set_option relaxedAutoImplicit false

namespace SableSyntax

/-- A text has the slashes of another one and its minus signs at least; if it has no more of them,
then something is unsigned. -/
structure AddsSigns (text text' : String) (unsigned : Prop) : Prop where
  slashes : text'.toList.count '/' = text.toList.count '/'
  signs : text.toList.count '-' ≤ text'.toList.count '-'
  unsigned : text'.toList.count '-' = text.toList.count '-' → unsigned

namespace AddsSigns

variable {first second first' second' : String} {p q : Prop}

theorem refl (text : String) : AddsSigns text text True := ⟨rfl, Nat.le_refl _, fun _ => trivial⟩

theorem imp (h : AddsSigns first first' p) (le : p → q) : AddsSigns first first' q :=
  ⟨h.slashes, h.signs, fun same => le (h.unsigned same)⟩

theorem append (before : AddsSigns first first' p) (behind : AddsSigns second second' q) :
    AddsSigns (first ++ second) (first' ++ second') (p ∧ q) := by
  have signs := before.signs
  have signs' := behind.signs
  constructor <;> simp only [String.toList_append, List.count_append]
  · rw [before.slashes, behind.slashes]
  · exact Nat.add_le_add signs signs'
  · exact fun same => ⟨before.unsigned (by omega), behind.unsigned (by omega)⟩

theorem behind (front : String) (h : AddsSigns first first' p) :
    AddsSigns (front ++ first) (front ++ first') p :=
  ((refl front).append h).imp And.right

theorem before (h : AddsSigns first first' p) (rest : String) :
    AddsSigns (first ++ rest) (first' ++ rest) p :=
  (h.append (refl rest)).imp And.left

theorem join {α : Type} [BEq α] {text : α → String} {p : α → Prop} {as bs : List α}
    (equal : (as == bs) = true)
    (each : ∀ a ∈ as, ∀ b, (a == b) = true → AddsSigns (text a) (text b) (p b)) :
    AddsSigns (String.join (as.map text)) (String.join (bs.map text)) (∀ b ∈ bs, p b) := by
  induction as generalizing bs with
  | nil =>
    cases bs with
    | nil => exact (refl _).imp fun _ => List.forall_mem_nil _
    | cons b bs => cases equal
  | cons a as ih =>
    cases bs with
    | nil => cases equal
    | cons b bs =>
      simp only [List.cons_beq_cons, Bool.and_eq_true] at equal
      simp only [List.forall_mem_cons] at each
      simp only [List.map_cons, String.join_cons]
      exact ((each.1 b equal.1).append (ih equal.2 each.2)).imp List.forall_mem_cons.2

end AddsSigns

theorem Binary64.text_addsSigns {x y : Binary64} (equal : (x == y) = true)
    (plain : x.isNegative = false) : AddsSigns x.text y.text (y.isNegative = false) := by
  obtain ⟨number, same⟩ := magnitude_eq_of_beq equal
  have number' : y.isNaN = false := by rw [← number, isNaN, isNaN, same]
  have finite : y.isFinite = x.isFinite := by rw [isFinite, isFinite, same]
  simp only [text, number, number', plain, finite, same, Bool.false_eq_true, ↓reduceIte]
  cases y.isNegative with
  | false => exact (AddsSigns.refl _).imp fun _ => rfl
  | true =>
    have slashes : "-".toList.count '/' = "".toList.count '/' := rfl
    have signs : "-".toList.count '-' = "".toList.count '-' + 1 := rfl
    constructor <;> simp only [↓reduceIte, String.toList_append, List.count_append] <;> omega

theorem Expression.text_addsSigns {a b : Expression} (equal : a.agrees b)
    (plain : a.IsUnsigned) : AddsSigns a.text b.text b.IsUnsigned := by
  induction a generalizing b with
  | assignment target value span ih =>
    cases b <;> simp only [agrees, Bool.and_eq_true, Bool.false_eq_true] at equal
    have name : target.name = _ := of_decide_eq_true equal.1
    simp only [text, Identifier.text, name]
    exact (ih equal.2 plain).behind _
  | binary operator left right span ihLeft ihRight =>
    cases b <;> simp only [agrees, Bool.and_eq_true, decide_eq_true_eq, Bool.false_eq_true] at equal
    simp only [text, equal.1.1]
    refine AddsSigns.append ?_ (ihRight equal.2 plain.2)
    exact (((ihLeft equal.1.2 plain.1).before _).before _).before _
  | identifier name span | integer value span =>
    cases b <;> simp only [agrees, beq_iff_eq, Bool.false_eq_true] at equal
    simp only [text, equal]
    exact .refl _
  | float value span =>
    cases b <;> simp only [agrees, Bool.false_eq_true] at equal
    exact Binary64.text_addsSigns equal plain
  | parenthesized inner span ih =>
    cases b <;> simp only [agrees, Bool.false_eq_true] at equal
    exact ((ih equal plain).behind "(").before ")"

theorem TypeExpr.text_eq_of_beq {a b : TypeExpr} (equal : (a == b) = true) : a.text = b.text := by
  rw [← text_unplaced, unplaced_eq_of_beq equal, text_unplaced]

theorem typeClause_eq_of_text_eq {a b : Option TypeExpr}
    (same : a.map TypeExpr.text = b.map TypeExpr.text) : typeClause a = typeClause b := by
  cases a <;> cases b <;> simp_all [typeClause]

theorem Statement.text_addsSigns {a b : Statement} (equal : (a == b) = true)
    (plain : a.content.IsUnsigned) : AddsSigns a.text b.text b.content.IsUnsigned := by
  rcases a with ⟨name, type, initializer, span⟩ | ⟨value, span⟩ <;>
    rcases b with ⟨name', type', initializer', span'⟩ | ⟨value', span'⟩
  · have equal : (name == name' && type == type' && initializer == initializer') = true := equal
    simp only [Bool.and_eq_true] at equal
    obtain ⟨⟨names, types⟩, values⟩ := equal
    have names : name.name = name'.name := of_decide_eq_true names
    have types : type.map TypeExpr.text = type'.map TypeExpr.text :=
      map_eq_of_option_beq types fun _ _ _ _ => TypeExpr.text_eq_of_beq
    simp only [text, Identifier.text, names, typeClause_eq_of_text_eq types]
    exact ((Expression.text_addsSigns values plain).behind _).before ";"
  · cases equal
  · cases equal
  · exact (Expression.text_addsSigns equal plain).before ";"

theorem Block.text_addsSigns {a b : Block} (equal : (a == b) = true)
    (plain : ∀ e ∈ a.expressions, e.IsUnsigned) :
    AddsSigns a.text b.text (∀ e ∈ b.expressions, e.IsUnsigned) := by
  have line : ∀ statement ∈ a.statements, ∀ statement', (statement == statement') = true →
      AddsSigns ("    " ++ statement.text ++ "\n") ("    " ++ statement'.text ++ "\n")
        statement'.content.IsUnsigned :=
    fun statement member statement' equal =>
      ((Statement.text_addsSigns equal (plain _ (List.mem_map_of_mem member))).behind _).before _
  refine (((AddsSigns.join equal line).behind "\x7b\n").before "\x7d").imp fun each => ?_
  simpa [expressions] using each

theorem bodyClause_addsSigns {a b : Option Block} (equal : (a == b) = true)
    (plain : ∀ e ∈ a.elim [] Block.expressions, e.IsUnsigned) :
    AddsSigns (bodyClause a) (bodyClause b) (∀ e ∈ b.elim [] Block.expressions, e.IsUnsigned) := by
  cases a with
  | none =>
    cases b with
    | none => exact (AddsSigns.refl _).imp fun _ => List.forall_mem_nil _
    | some block' => cases equal
  | some block =>
    cases b with
    | none => cases equal
    | some block' => exact (Block.text_addsSigns equal plain).behind " "

theorem Parameter.text_eq_of_beq {a b : Parameter} (equal : (a == b) = true) : a.text = b.text := by
  rw [← text_unplaced, unplaced_eq_of_beq equal, text_unplaced]

theorem Function.text_addsSigns {a b : Function} (equal : (a == b) = true)
    (plain : ∀ e ∈ a.expressions, e.IsUnsigned) :
    AddsSigns a.text b.text (∀ e ∈ b.expressions, e.IsUnsigned) := by
  have equal : (a.name == b.name && a.parameters == b.parameters &&
    a.returnType == b.returnType && a.body == b.body) = true := equal
  simp only [Bool.and_eq_true] at equal
  obtain ⟨⟨⟨names, parameters⟩, types⟩, bodies⟩ := equal
  have names : a.name.name = b.name.name := of_decide_eq_true names
  have parameters : a.parameters.map Parameter.text = b.parameters.map Parameter.text :=
    map_eq_of_list_beq parameters fun _ _ _ _ => Parameter.text_eq_of_beq
  rw [text, text, Identifier.text, Identifier.text, names, parameters,
    TypeExpr.text_eq_of_beq types]
  exact (bodyClause_addsSigns bodies plain).behind _

theorem Program.text_addsSigns {a b : Program} (equal : (a == b) = true)
    (plain : ∀ e ∈ a.expressions, e.IsUnsigned) :
    AddsSigns a.text b.text (∀ e ∈ b.expressions, e.IsUnsigned) := by
  have equal : (a.functions == b.functions) = true := equal
  have item : ∀ function ∈ a.functions, ∀ function', (function == function') = true →
      AddsSigns (function.text ++ "\n") (function'.text ++ "\n")
        (∀ e ∈ function'.expressions, e.IsUnsigned) :=
    fun function member function' equal =>
      (Function.text_addsSigns equal fun e inside =>
        plain e (List.mem_flatMap_of_mem member inside)).before _
  simp only [text, expressions, List.forall_mem_flatMap]
  generalize a.functions = functions at equal item
  generalize b.functions = functions' at equal
  cases functions with
  | nil =>
    cases functions' with
    | nil => exact (AddsSigns.refl _).imp fun _ => List.forall_mem_nil _
    | cons function' functions' => cases equal
  | cons function functions =>
    cases functions' with
    | nil => cases equal
    | cons function' functions' =>
      simp only [List.cons_beq_cons, Bool.and_eq_true] at equal
      simp only [List.forall_mem_cons] at item
      have further := AddsSigns.join equal.2 fun function member function' equal =>
        (item.2 function member function' equal).behind "\n"
      simp only [List.map_cons, intercalate_cons, List.map_map]
      exact ((item.1 function' equal.1).append further).imp fun clear =>
        List.forall_mem_cons.2 clear

end SableSyntax
