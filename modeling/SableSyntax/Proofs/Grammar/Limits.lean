/- SableSyntax/Proofs/Grammar/Limits
   digest: The limits on numbers and nesting taken out of the rules, to be checked afterwards. -/

import SableSyntax.Proofs.Grammar.Viable
import SableSyntax.Proofs.Syntax.Places

set_option autoImplicit false
set_option relaxedAutoImplicit false

namespace SableSyntax

theorem Lexeme.InRange.of_kind {lexeme : Lexeme} {kind : TokenKind} (same : lexeme.kind = kind)
    (other : kind ∉ [TokenKind.integer, .float]) : lexeme.InRange := by
  subst same
  unfold InRange
  split <;> simp_all

namespace Grammar

def InRange (tokens : List Token) : Prop := ∀ token ∈ tokens, token.InRange

namespace InRange

variable {first second tokens : List Token} {token : Token}

@[simp] theorem nil : InRange [] := by simp [InRange]

@[simp] theorem cons_iff : InRange (token :: tokens) ↔ token.InRange ∧ InRange tokens := by
  simp [InRange]

@[simp] theorem append_iff : InRange (first ++ second) ↔ InRange first ∧ InRange second := by
  simp [InRange, or_imp, forall_and]

theorem many {α : Type} {item : List Token → α → Prop} {values : List α}
    (derived : Many item tokens values) (each : ∀ used value, item used value → InRange used) :
    InRange tokens := by
  induction derived with
  | nil => exact nil
  | cons head _ ih => exact append_iff.2 ⟨each _ _ head, ih⟩

end InRange

theorem TypeRule.inRange {tokens : List Token} {type : TypeExpr} (derived : TypeRule tokens type) :
    InRange tokens := by
  obtain ⟨name, pointers⟩ := derived
  refine InRange.cons_iff.2 ⟨.of_kind name (by decide), .many pointers ?_⟩
  intro _ star h
  rcases h with ⟨rfl, same⟩
  simpa using Lexeme.InRange.of_kind same (by decide)

theorem Ascription.inRange {tokens : List Token} {type : TypeExpr}
    (derived : Ascription tokens type) : InRange tokens := by
  obtain ⟨mark, derived⟩ := derived
  exact InRange.cons_iff.2 ⟨.of_kind mark (by decide), derived.inRange⟩

theorem ParameterRule.inRange {tokens : List Token} {parameter : Parameter}
    (derived : ParameterRule tokens parameter) : InRange tokens := by
  obtain ⟨kind, ascribed⟩ := derived
  exact InRange.cons_iff.2 ⟨.of_kind kind (by decide), ascribed.inRange⟩

theorem ParametersRule.inRange {tokens : List Token} {parameters : List Parameter}
    (derived : ParametersRule tokens parameters) : InRange tokens := by
  rcases derived with _ | ⟨head, tail⟩
  · exact .nil
  · refine InRange.append_iff.2 ⟨head.inRange, .many tail ?_⟩
    intro _ _ h
    rcases h with ⟨mark, derived⟩
    exact InRange.cons_iff.2 ⟨.of_kind mark (by decide), derived.inRange⟩

theorem DeclaredTypeRule.inRange {tokens : List Token} {type : Option TypeExpr}
    (derived : DeclaredTypeRule tokens type) : InRange tokens := by
  rcases derived with _ | ⟨ascribed⟩
  · exact .nil
  · exact ascribed.inRange

/-- A rule derives what a looser rule derives from tokens in range with a value of its own kind. -/
def Restricts {α : Type} (strict loose : List Token → α → Prop) (allowed : α → Prop) : Prop :=
  ∀ ⦃tokens value⦄, strict tokens value ↔ loose tokens value ∧ InRange tokens ∧ allowed value

theorem Restricts.many {α : Type} {strict loose : List Token → α → Prop} {allowed : α → Prop}
    (h : Restricts strict loose allowed) :
    Restricts (Many strict) (Many loose) fun values => ∀ value ∈ values, allowed value := by
  intro tokens values
  constructor
  · intro derived
    induction derived with
    | nil => exact ⟨.nil, .nil, by simp⟩
    | cons head _ ih =>
      obtain ⟨loose, inRange, holds⟩ := h.1 head
      exact ⟨.cons loose ih.1, InRange.append_iff.2 ⟨inRange, ih.2.1⟩,
        List.forall_mem_cons.2 ⟨holds, ih.2.2⟩⟩
  · intro derived
    rcases derived with ⟨derived, inRange, holds⟩
    induction derived with
    | nil => exact .nil
    | cons head _ ih =>
      rw [InRange.append_iff] at inRange
      rw [List.forall_mem_cons] at holds
      exact .cons (h.2 ⟨head, inRange.1, holds.1⟩) (ih inRange.2 holds.2)

section Statements

variable {strict loose : List Token → Expression → Prop} {allowed : Expression → Prop}

theorem Restricts.statementRule (h : Restricts strict loose allowed) :
    Restricts (StatementRule strict) (StatementRule loose) fun statement =>
      allowed statement.content := by
  intro tokens statement
  constructor
  · intro derived
    cases derived with
    | «variable» var target declared equal derived semicolon =>
      obtain ⟨loose, inRange, holds⟩ := h.1 derived
      refine ⟨.variable var target declared equal loose semicolon, ?_, holds⟩
      simp [Lexeme.InRange.of_kind var, Lexeme.InRange.of_kind target, Lexeme.InRange.of_kind equal,
        Lexeme.InRange.of_kind semicolon, declared.inRange, inRange]
    | expression derived semicolon =>
      obtain ⟨loose, inRange, holds⟩ := h.1 derived
      refine ⟨.expression loose semicolon, ?_, holds⟩
      simp [Lexeme.InRange.of_kind semicolon, inRange]
  · intro derived
    rcases derived with ⟨derived, inRange, holds⟩
    cases derived with
    | «variable» var target declared equal derived semicolon =>
      simp only [InRange.cons_iff, InRange.append_iff] at inRange
      exact .variable var target declared equal (h.2 ⟨derived, inRange.2.2.2.2.1, holds⟩) semicolon
    | expression derived semicolon =>
      simp only [InRange.append_iff] at inRange
      exact .expression (h.2 ⟨derived, inRange.1, holds⟩) semicolon

theorem Restricts.blockRule (h : Restricts strict loose allowed) :
    Restricts (BlockRule strict) (BlockRule loose) fun block =>
      ∀ e ∈ block.expressions, allowed e := by
  intro tokens block
  constructor
  · intro derived
    rcases derived with ⟨left, derived, right⟩
    obtain ⟨loose, inRange, holds⟩ := h.statementRule.many.1 derived
    refine ⟨.intro left loose right, ?_, by simpa [Block.expressions] using holds⟩
    simp [Lexeme.InRange.of_kind left, Lexeme.InRange.of_kind right, inRange]
  · intro derived
    rcases derived with ⟨⟨left, derived, right⟩, inRange, holds⟩
    simp only [InRange.cons_iff, InRange.append_iff] at inRange
    exact .intro left (h.statementRule.many.2 ⟨derived, inRange.2.1, by
      simpa [Block.expressions] using holds⟩) right

theorem Restricts.bodyRule (h : Restricts strict loose allowed) :
    Restricts (BodyRule strict) (BodyRule loose) fun body =>
      ∀ e ∈ body.1.elim [] Block.expressions, allowed e := by
  intro tokens body
  constructor
  · intro derived
    rcases derived with ⟨derived⟩ | ⟨mark⟩
    · obtain ⟨loose, inRange, holds⟩ := h.blockRule.1 derived
      exact ⟨.block loose, inRange, holds⟩
    · exact ⟨.semicolon mark, by simp [Lexeme.InRange.of_kind mark], by simp⟩
  · intro derived
    rcases derived with ⟨⟨derived⟩ | ⟨mark⟩, inRange, holds⟩
    · exact .block (h.blockRule.2 ⟨derived, inRange, holds⟩)
    · exact .semicolon mark

theorem Restricts.functionRule (h : Restricts strict loose allowed) :
    Restricts (FunctionRule strict) (FunctionRule loose) fun function =>
      ∀ e ∈ function.expressions, allowed e := by
  intro tokens function
  constructor
  · intro derived
    rcases derived with ⟨func, target, left, derivedParameters, right, ascribed, derivedBody⟩
    obtain ⟨loose, inRange, holds⟩ := h.bodyRule.1 derivedBody
    refine ⟨.intro func target left derivedParameters right ascribed loose, ?_, holds⟩
    simp [Lexeme.InRange.of_kind func, Lexeme.InRange.of_kind target, Lexeme.InRange.of_kind left,
      Lexeme.InRange.of_kind right, derivedParameters.inRange, ascribed.inRange, inRange]
  · intro derived
    rcases derived with ⟨⟨func, target, left, derivedParameters, right, ascribed, derivedBody⟩,
      inRange, holds⟩
    simp only [InRange.cons_iff, InRange.append_iff] at inRange
    exact .intro func target left derivedParameters right ascribed
      (h.bodyRule.2 ⟨derivedBody, inRange.2.2.2.2.2.2, holds⟩)

theorem Restricts.programRule (h : Restricts strict loose allowed) (stop : Token) :
    Restricts (ProgramRule strict stop) (ProgramRule loose stop) fun program =>
      ∀ e ∈ program.expressions, allowed e := by
  intro tokens program
  constructor
  · intro derived
    rcases derived with ⟨derived⟩
    obtain ⟨loose, inRange, holds⟩ := h.functionRule.many.1 derived
    refine ⟨.intro loose, inRange, fun e member => ?_⟩
    obtain ⟨function, inside, member⟩ := List.mem_flatMap.1 member
    exact holds function inside e member
  · intro derived
    rcases derived with ⟨⟨derived⟩, inRange, holds⟩
    exact .intro (h.functionRule.many.2 ⟨derived, inRange, fun function inside e member =>
      holds e (List.mem_flatMap_of_mem inside member)⟩)

end Statements

/-- Expressions are read if they are derived from numbers in range and need no more levels than
there are. -/
theorem readable_restricts (levels : Nat) (level : Precedence) :
    Restricts (Readable levels level) (ExpressionRule level) fun e => e.need ≤ levels :=
  fun _ _ => ⟨fun ⟨derived, inRange, shallow⟩ => ⟨derived, inRange, shallow⟩,
    fun ⟨derived, inRange, shallow⟩ => ⟨derived, inRange, shallow⟩⟩

end Grammar

end SableSyntax
