/- SableSyntax/Proofs/Grammar/Extents
   digest: Every node extends from the first to the last of the tokens that it is derived from. -/

import SableSyntax.Proofs.Grammar.Rules
import SableSyntax.Proofs.Syntax.Outlines

set_option autoImplicit false
set_option relaxedAutoImplicit false

namespace SableSyntax

open Grammar (Many)

/-- Whether a stretch extends from the start of the first to the end of the last of some tokens. -/
structure Span.Extends (span : Span) (tokens : List Token) : Prop where
  starts : tokens.head?.map (·.span.start) = some span.start
  stops : tokens.getLast?.map (·.span.stop) = some span.stop

namespace Span.Extends

variable {first last : Span} {front behind : List Token}

theorem single (token : Token) : Extends token.span [token] := ⟨rfl, rfl⟩

theorem through (h : first.Extends front) (h' : last.Extends behind) (middle : List Token) :
    (first.through last).Extends (front ++ (middle ++ behind)) := by
  obtain ⟨token, head, starts⟩ := Option.map_eq_some_iff.1 h.starts
  obtain ⟨token', tail, stops⟩ := Option.map_eq_some_iff.1 h'.stops
  refine ⟨?_, ?_⟩
  · rw [List.head?_append, head]
    exact congrArg some starts
  · rw [← List.append_assoc, List.getLast?_append, tail]
    exact congrArg some stops

end Span.Extends

/-- Whether the nodes of an outline come from consecutive parts of some tokens, with tokens between
them that belong to no node, and extend over these parts. -/
inductive Outline.Covers : List Token → Outline → Prop
  | nil (tokens : List Token) : Covers tokens .nil
  | node {skipped front others : List Token} {span : Span} {inside behind : Outline}
    (extent : span.Extends front) (inner : Covers front inside) (rest : Covers others behind) :
    Covers (skipped ++ (front ++ others)) (.node span inside behind)

namespace Outline.Covers

variable {tokens others : List Token} {outline outline' : Outline} {span : Span}

theorem skip (before : List Token) (h : Covers tokens outline) :
    Covers (before ++ tokens) outline := by
  cases h with
  | nil => exact .nil _
  | node extent inner rest =>
    rw [← List.append_assoc]
    exact .node extent inner rest

theorem append (h : Covers tokens outline) (h' : Covers others outline') :
    Covers (tokens ++ others) (outline ++ outline') := by
  induction h with
  | nil tokens => exact h'.skip tokens
  | node extent inner rest _ ih =>
    rw [List.append_assoc, List.append_assoc]
    exact .node extent inner ih

theorem skip_behind (h : Covers tokens outline) (behind : List Token) :
    Covers (tokens ++ behind) outline := by
  simpa using h.append (.nil behind)

theorem single (extent : span.Extends tokens) (inner : Covers tokens outline) :
    Covers tokens (.single span outline) := by
  have whole := @Covers.node [] _ [] _ _ _ extent inner (.nil [])
  rwa [List.append_nil] at whole

theorem many {α : Type} {item : List Token → α → Prop} {outline : α → Outline} {values : List α}
    (each : ∀ tokens value, item tokens value → Covers tokens (outline value))
    (derived : Many item tokens values) : Covers tokens (.join (values.map outline)) := by
  induction derived with
  | nil => exact .nil []
  | cons head _ ih => exact (each _ _ head).append ih

end Outline.Covers

/-- What is known of a node's place: its stretch extends over its tokens, and its outline covers
them. -/
structure Extent (tokens : List Token) (span : Span) (outline : Outline) : Prop where
  extent : span.Extends tokens
  covers : outline.Covers tokens

namespace Grammar

open Outline (Covers)

theorem extent_single {tokens : List Token} {span : Span} {inside : Outline}
    (extent : span.Extends tokens) (inner : Covers tokens inside) :
    Extent tokens span (.single span inside) :=
  ⟨extent, .single extent inner⟩

theorem extent_name (token : Token) :
    Extent [token] token.span (Identifier.outline ⟨token.text, token.span⟩) :=
  extent_single (.single token) (.nil _)

theorem ExpressionRule.extent {level : Precedence} {tokens : List Token} {value : Expression}
    (derived : ExpressionRule level tokens value) : Extent tokens value.span value.outline := by
  induction derived with
  | integer | float | identifier => exact extent_single (.single _) (.nil _)
  | product _ ih | sum _ ih | chain _ ih => exact ih
  | @parenthesized opening close tokens inner left derived right ih =>
    exact extent_single ((Span.Extends.single opening).through (.single close) tokens)
      ((ih.covers.skip_behind [close]).skip [opening])
  | @link mark operator level tighter before behind left right joins _ _ ih ih' =>
    exact extent_single (ih.extent.through ih'.extent [mark])
      (ih.covers.append (ih'.covers.skip [mark]))
  | @assignment name mark tokens value target equal derived ih =>
    have named := extent_name name
    exact extent_single (named.extent.through ih.extent [mark])
      (named.covers.append (ih.covers.skip [mark]))

theorem eq_of_many_mark {kind : TokenKind} {tokens marks : List Token}
    (derived : Many (Mark kind) tokens marks) : tokens = marks := by
  induction derived with
  | nil => rfl
  | cons head _ ih =>
    obtain ⟨rfl, -⟩ := head
    rw [ih]
    rfl

theorem TypeRule.extent {tokens : List Token} {type : TypeExpr} (derived : TypeRule tokens type) :
    Extent tokens type.span type.outline := by
  cases derived with
  | @intro base stars marks name pointers =>
    obtain rfl := eq_of_many_mark pointers
    refine extent_single ⟨rfl, ?_⟩ (.nil _)
    rw [List.getLast?_cons]
    cases stars.getLast? <;> rfl

theorem Ascription.exists_extent {tokens : List Token} {type : TypeExpr}
    (derived : Ascription tokens type) :
    ∃ colon behind, tokens = [colon] ++ behind ∧ Extent behind type.span type.outline := by
  cases derived with
  | @intro colon behind type mark derived => exact ⟨colon, behind, rfl, derived.extent⟩

theorem ParameterRule.extent {tokens : List Token} {parameter : Parameter}
    (derived : ParameterRule tokens parameter) :
    Extent tokens parameter.span parameter.outline := by
  cases derived with
  | @intro name tokens type kind ascribed =>
    obtain ⟨colon, behind, rfl, typed⟩ := ascribed.exists_extent
    have named := extent_name name
    exact extent_single (named.extent.through typed.extent [colon])
      (named.covers.append (typed.covers.skip [colon]))

theorem FurtherParameter.covers {tokens : List Token} {parameter : Parameter}
    (derived : FurtherParameter tokens parameter) : Covers tokens parameter.outline := by
  cases derived with
  | @intro comma tokens parameter mark derived => exact derived.extent.covers.skip [comma]

theorem ParametersRule.covers {tokens : List Token} {parameters : List Parameter}
    (derived : ParametersRule tokens parameters) :
    Covers tokens (.join (parameters.map Parameter.outline)) := by
  cases derived with
  | none => exact .nil []
  | some head tail =>
    exact head.extent.covers.append (.many (fun _ _ further => further.covers) tail)

theorem DeclaredTypeRule.covers {tokens : List Token} {type : Option TypeExpr}
    (derived : DeclaredTypeRule tokens type) :
    Covers tokens (.join (type.toList.map TypeExpr.outline)) := by
  cases derived with
  | absent => exact .nil []
  | present ascribed =>
    obtain ⟨colon, behind, rfl, typed⟩ := ascribed.exists_extent
    have whole := typed.covers.skip [colon]
    rwa [← Outline.append_nil (TypeExpr.outline _)] at whole

section Statements

variable {expression : List Token → Expression → Prop}
  (each : ∀ tokens value, expression tokens value → Extent tokens value.span value.outline)

include each

theorem StatementRule.extent {tokens : List Token} {statement : Statement}
    (derived : StatementRule expression tokens statement) :
    Extent tokens statement.span statement.outline := by
  cases derived with
  | @«variable» keyword name mark close ascription tokens declaredType value var target declared
      equal derived semicolon =>
    have declares := (extent_name name).covers.append (declared.covers.append
      ((each _ _ derived).covers.skip [mark]))
    have extent := (Span.Extends.single keyword).through (.single close)
      (name :: (ascription ++ mark :: tokens))
    have shape : keyword :: name :: (ascription ++ mark :: (tokens ++ [close])) =
        [keyword] ++ (name :: (ascription ++ mark :: tokens) ++ [close]) := by simp
    rw [shape]
    exact extent_single extent ((declares.skip_behind [close]).skip [keyword])
  | @expression close tokens value derived semicolon =>
    have valued := each _ _ derived
    exact extent_single (valued.extent.through (.single close) []) (valued.covers.skip_behind _)

theorem BlockRule.extent {tokens : List Token} {block : Block}
    (derived : BlockRule expression tokens block) : Extent tokens block.span block.outline := by
  cases derived with
  | @intro opening close tokens statements left derived right =>
    have statement (tokens : List Token) (statement : Statement)
        (derived : StatementRule expression tokens statement) : Covers tokens statement.outline :=
      (StatementRule.extent each derived).covers
    have inner := Covers.many statement derived
    exact extent_single ((Span.Extends.single opening).through (.single close) tokens)
      ((inner.skip_behind [close]).skip [opening])

theorem BodyRule.extent {tokens : List Token} {body : Option Block} {last : Span}
    (derived : BodyRule expression tokens (body, last)) :
    Extent tokens last (.join (body.toList.map Block.outline)) := by
  cases derived with
  | block derived =>
    have whole := BlockRule.extent each derived
    rw [← Outline.append_nil (Block.outline _)] at whole
    exact whole
  | @semicolon close mark => exact ⟨.single close, .nil _⟩

theorem FunctionRule.extent {tokens : List Token} {function : Function}
    (derived : FunctionRule expression tokens function) :
    Extent tokens function.span function.outline := by
  cases derived with
  | @intro keyword name opening close inside ascription behind parameters returnType body last func
      target left derivedParameters right ascribed derivedBody =>
    obtain ⟨colon, type, rfl, typed⟩ := ascribed.exists_extent
    have bodied := BodyRule.extent each derivedBody
    have inner := (extent_name name).covers.append ((derivedParameters.covers.skip [opening]).append
      ((typed.covers.skip [close, colon]).append bodied.covers))
    have shape : keyword :: name :: opening :: (inside ++ close :: ([colon] ++ type ++ behind)) =
        [keyword] ++ (name :: opening :: (inside ++ close :: colon :: type) ++ behind) := by simp
    have extent := (Span.Extends.single keyword).through bodied.extent
      (name :: opening :: (inside ++ close :: colon :: type))
    rw [shape]
    refine extent_single extent (.skip [keyword] ?_)
    simpa using inner

omit each in
theorem map_stop_getLast? {tokens : List Token} {functions : List Function}
    (extent : ∀ tokens (function : Function), FunctionRule expression tokens function →
      function.span.Extends tokens)
    (derived : Many (FunctionRule expression) tokens functions) :
    tokens.getLast?.map (·.span.stop) = functions.getLast?.map (·.span.stop) := by
  induction derived with
  | nil => rfl
  | @cons front rest function functions head tail ih =>
    have stops := (extent _ _ head).stops
    rw [List.getLast?_append, List.getLast?_cons, Option.map_or, ih, stops]
    cases functions.getLast? <;> rfl

theorem ProgramRule.extent {stop : Token} {tokens : List Token} {program : Program}
    (derived : ProgramRule expression stop tokens program) :
    Extent tokens program.span program.outline ∨
      tokens = [] ∧ program = ⟨[], .point stop.span.start⟩ := by
  have function (tokens : List Token) (function : Function)
      (derived : FunctionRule expression tokens function) :
      Extent tokens function.span function.outline :=
    FunctionRule.extent each derived
  cases derived with
  | @intro functions derived =>
    have inner : Covers _ (.join (functions.map Function.outline)) :=
      .many (fun _ _ derived => (function _ _ derived).covers) derived
    have stops := map_stop_getLast? (fun _ _ derived => (function _ _ derived).extent) derived
    cases derived with
    | nil => exact .inr ⟨rfl, rfl⟩
    | @cons front rest value functions head tail =>
      obtain ⟨token, first, -⟩ := Option.map_eq_some_iff.1 (function _ _ head).extent.starts
      refine .inl (extent_single ⟨?_, ?_⟩ inner)
      · simp [List.head?_append, List.headD_eq_head?_getD, first, Span.through]
      · rw [stops]
        simp [List.getLast?_cons, Span.through]

end Statements

end Grammar

end SableSyntax
