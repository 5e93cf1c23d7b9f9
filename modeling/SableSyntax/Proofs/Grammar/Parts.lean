/- SableSyntax/Proofs/Grammar/Parts
   digest: All nodes of a derived tree are derived themselves, from parts of the tokens it has. -/

import SableSyntax.Proofs.Grammar.Extents
import SableSyntax.Proofs.Grammar.Limits
import SableSyntax.Proofs.Parsing.ProgramSoundness
import SableSyntax.Proofs.Syntax.Nodes

set_option autoImplicit false
set_option relaxedAutoImplicit false

namespace SableSyntax

open Grammar
open SableSyntax.Parser (Bounded ProgramUpTo)

/-- The tokens that a node is derived from by the rule for its kind, within the limits on numbers
and nesting; for a program, in a text with a certain end. -/
def Node.DerivedFrom (stop : Token) (tokens : List Token) : Node → Prop
  | .program node => ProgramUpTo stop tokens node
  | .function node => Bounded FunctionRule tokens node
  | .parameter node => ParameterRule tokens node
  | .typeExpr node => TypeRule tokens node
  | .block node => Bounded BlockRule tokens node
  | .statement node => Bounded StatementRule tokens node
  | .expression node => Readable maxNesting .assignment tokens node
  | .identifier node => NameRule tokens node

namespace Grammar

/-- Nodes that are derived from consecutive parts of some tokens, with tokens between the parts
that belong to none of the nodes. -/
inductive Parts (stop : Token) : List Token → List Node → Prop
  | nil (tokens : List Token) : Parts stop tokens []
  | cons {skipped front behind : List Token} {node : Node} {nodes : List Node}
    (derived : node.DerivedFrom stop front) (rest : Parts stop behind nodes) :
    Parts stop (skipped ++ (front ++ behind)) (node :: nodes)

namespace Parts

variable {stop : Token} {tokens others : List Token} {node : Node} {nodes nodes' : List Node}

theorem skip (before : List Token) (h : Parts stop tokens nodes) :
    Parts stop (before ++ tokens) nodes := by
  cases h with
  | nil => exact .nil _
  | cons derived rest =>
    rw [← List.append_assoc]
    exact .cons derived rest

theorem append (h : Parts stop tokens nodes) (h' : Parts stop others nodes') :
    Parts stop (tokens ++ others) (nodes ++ nodes') := by
  induction h with
  | nil tokens => exact h'.skip tokens
  | cons derived rest ih =>
    rw [List.append_assoc, List.append_assoc]
    exact .cons derived ih

theorem skip_behind (h : Parts stop tokens nodes) (behind : List Token) :
    Parts stop (tokens ++ behind) nodes := by
  simpa using h.append (.nil behind)

theorem single (node : Node) (derived : node.DerivedFrom stop tokens) :
    Parts stop tokens [node] := by
  have whole := @Parts.cons stop [] tokens [] node [] derived (.nil [])
  rwa [List.append_nil] at whole

theorem many {α : Type} {item : List Token → α → Prop} {view : α → Node} {values : List α}
    (each : ∀ tokens value, item tokens value → Parts stop tokens [view value])
    (derived : Many item tokens values) : Parts stop tokens (values.map view) := by
  induction derived with
  | nil => exact .nil []
  | cons head _ ih => exact (each _ _ head).append ih

theorem exists_part (h : Parts stop tokens nodes) (member : node ∈ nodes) :
    ∃ before used behind, tokens = before ++ (used ++ behind) ∧ node.DerivedFrom stop used := by
  induction h with
  | nil => cases member
  | @cons skipped front behind first nodes derived rest ih =>
    rcases List.mem_cons.1 member with rfl | member
    · exact ⟨skipped, front, behind, rfl, derived⟩
    · obtain ⟨before, used, others, rfl, derived'⟩ := ih member
      exact ⟨skipped ++ (front ++ before), used, others, by simp, derived'⟩

end Parts

section Rules

variable (stop : Token) {tokens : List Token}

theorem parts_name (token : Token) (kind : token.kind = .identifier) :
    Parts stop [token] [.identifier ⟨token.text, token.span⟩] :=
  .single (.identifier _) ⟨token, ⟨rfl, kind⟩, rfl⟩

theorem ExpressionRule.parts {level : Precedence} {value : Expression}
    (derived : ExpressionRule level tokens value) (inRange : InRange tokens)
    (shallow : value.need ≤ maxNesting) :
    Parts stop tokens (Node.expression value).children := by
  have loose (level : Precedence) : Precedence.assignment ≤ level := by cases level <;> decide
  have operand {level : Precedence} {used : List Token} {part : Expression}
      (derived : ExpressionRule level used part) (inRange : InRange used)
      (shallow : part.need ≤ maxNesting) : Parts stop used [.expression part] :=
    .single (.expression part) ⟨derived.loosen (loose level), inRange, shallow⟩
  induction derived with
  | integer | float | identifier => exact .nil _
  | product _ ih | sum _ ih | chain _ ih => exact ih inRange shallow
  | @parenthesized opening close tokens inner left derived right =>
    simp only [InRange.cons_iff, InRange.append_iff] at inRange
    simp only [Expression.need] at shallow
    exact ((operand derived inRange.2.1 (by omega)).skip_behind [close]).skip [opening]
  | @link mark operator level tighter before behind left right joins derivedLeft derivedRight =>
    simp only [InRange.cons_iff, InRange.append_iff] at inRange
    simp only [Expression.need] at shallow
    exact (operand derivedLeft inRange.1 (by omega)).append
      ((operand derivedRight inRange.2.2 (by omega)).skip [mark])
  | @assignment name mark tokens value target equal derived =>
    simp only [InRange.cons_iff] at inRange
    simp only [Expression.need] at shallow
    exact (parts_name stop name target).append
      ((operand derived inRange.2.2 (by omega)).skip [mark])

theorem Ascription.parts {type : TypeExpr} (ascribed : Ascription tokens type) :
    Parts stop tokens [.typeExpr type] := by
  cases ascribed with
  | @intro colon tokens type mark derived =>
    exact (Parts.single (.typeExpr type) derived).skip [colon]

theorem ParameterRule.parts {parameter : Parameter} (derived : ParameterRule tokens parameter) :
    Parts stop tokens (Node.parameter parameter).children := by
  cases derived with
  | intro kind ascribed => exact (parts_name stop _ kind).append (ascribed.parts stop)

theorem ParametersRule.parts {parameters : List Parameter}
    (derived : ParametersRule tokens parameters) :
    Parts stop tokens (parameters.map .parameter) := by
  cases derived with
  | none => exact .nil []
  | some head tail =>
    have further (tokens : List Token) (parameter : Parameter)
        (derived : FurtherParameter tokens parameter) : Parts stop tokens [.parameter parameter] :=
      match derived with
      | @FurtherParameter.intro comma _ _ _ derived =>
        (Parts.single (.parameter parameter) derived).skip [comma]
    exact (Parts.single (.parameter _) head).append (.many further tail)

theorem DeclaredTypeRule.parts {type : Option TypeExpr} (derived : DeclaredTypeRule tokens type) :
    Parts stop tokens (type.toList.map .typeExpr) := by
  cases derived with
  | absent => exact .nil []
  | present ascribed => exact ascribed.parts stop

theorem StatementRule.parts {statement : Statement}
    (derived : Bounded StatementRule tokens statement) :
    Parts stop tokens (Node.statement statement).children := by
  cases derived with
  | @«variable» keyword name mark close ascription tokens declaredType value var target declared
      equal derived semicolon =>
    have value := (@Parts.single stop _ (.expression value) derived).skip_behind [close]
    exact ((parts_name stop name target).append
      ((declared.parts stop).append (value.skip [mark]))).skip [keyword]
  | @expression close tokens value derived semicolon =>
    exact (Parts.single (.expression _) derived).skip_behind [close]

theorem BlockRule.parts {block : Block} (derived : Bounded BlockRule tokens block) :
    Parts stop tokens (Node.block block).children := by
  cases derived with
  | @intro opening close tokens statements left derived right =>
    have statements : Parts stop tokens (statements.map .statement) :=
      .many (fun _ _ derived => .single (.statement _) derived) derived
    exact (statements.skip_behind [close]).skip [opening]

theorem BodyRule.parts {body : Option Block} {last : Span}
    (derived : Bounded BodyRule tokens (body, last)) :
    Parts stop tokens (body.toList.map .block) := by
  cases derived with
  | block derived => exact .single (.block _) derived
  | semicolon => exact .nil _

theorem FunctionRule.parts {function : Function}
    (derived : Bounded FunctionRule tokens function) :
    Parts stop tokens (Node.function function).children := by
  cases derived with
  | @intro keyword name opening close inside ascription behind parameters returnType body last func
      target left derivedParameters right ascribed derivedBody =>
    have typed := ((ascribed.parts stop).append (BodyRule.parts stop derivedBody)).skip [close]
    exact ((parts_name stop name target).append
      (((derivedParameters.parts stop).append typed).skip [opening])).skip [keyword]

theorem parts_children {node : Node} (derived : node.DerivedFrom stop tokens) :
    Parts stop tokens node.children := by
  cases node with
  | program program =>
    obtain ⟨functions⟩ := derived
    exact .many (fun _ _ derived => .single (.function _) derived) functions
  | function => exact FunctionRule.parts stop derived
  | parameter => exact ParameterRule.parts stop derived
  | typeExpr | identifier => exact .nil _
  | block => exact BlockRule.parts stop derived
  | statement => exact StatementRule.parts stop derived
  | expression => exact derived.derived.parts stop derived.inRange derived.shallow

theorem exists_part_of_standsIn {root node : Node} (derived : root.DerivedFrom stop tokens)
    (inside : root.StandsIn node) :
    ∃ before used behind, tokens = before ++ (used ++ behind) ∧ node.DerivedFrom stop used := by
  induction inside with
  | self => exact ⟨[], tokens, [], by simp, derived⟩
  | child above member ih =>
    obtain ⟨before, used, behind, rfl, derived'⟩ := ih
    obtain ⟨before', used', behind', rfl, derived''⟩ :=
      (parts_children stop derived').exists_part member
    exact ⟨before ++ before', used', behind' ++ behind, by simp, derived''⟩

/-- A derived node extends over its tokens, unless it is a program without functions, which is
empty and stands before the end of the text. -/
theorem extends_of_derivedFrom {node : Node} (derived : node.DerivedFrom stop tokens) :
    node.span.Extends tokens ∨
      tokens = [] ∧ node = .program ⟨[], .point stop.span.start⟩ := by
  have each (tokens : List Token) (value : Expression)
      (readable : Readable maxNesting .assignment tokens value) :
      Extent tokens value.span value.outline := readable.derived.extent
  cases node with
  | program node =>
    rcases ProgramRule.extent each derived with extent | ⟨rfl, rfl⟩
    · exact .inl extent.extent
    · exact .inr ⟨rfl, rfl⟩
  | function node => exact .inl (FunctionRule.extent each derived).extent
  | parameter node => exact .inl (ParameterRule.extent derived).extent
  | typeExpr node => exact .inl (TypeRule.extent derived).extent
  | block node => exact .inl (BlockRule.extent each derived).extent
  | statement node => exact .inl (StatementRule.extent each derived).extent
  | expression node => exact .inl (each _ _ derived).extent
  | identifier node =>
    obtain ⟨token, ⟨rfl, -⟩, rfl⟩ := derived
    exact .inl (.single token)

end Rules

end Grammar

end SableSyntax
