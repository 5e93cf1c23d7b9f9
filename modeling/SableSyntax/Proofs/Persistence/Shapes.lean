/- SableSyntax/Proofs/Persistence/Shapes
   digest: Shapes tell values apart, and their fields are told apart by their names. -/

import Mathlib.Data.List.Forall2
import SableSyntax.Persistence.Library

set_option autoImplicit false
set_option relaxedAutoImplicit false

namespace SableSyntax

theorem Primitive.storedName_injective : Function.Injective Primitive.storedName := by
  intro first second same
  cases first <;> cases second <;> first | rfl | exact absurd same (by decide)

theorem BinaryOperator.storedName_injective : Function.Injective BinaryOperator.storedName := by
  intro first second same
  cases first <;> cases second <;> first | rfl | exact absurd same (by decide)

theorem Part.mk_injective (type : Stored) : Function.Injective (Part.mk type) := by
  intro first second same
  cases same
  rfl

theorem Expression.eq_of_variant_eq {first second : Expression}
    (variant : first.variant = second.variant) (span : first.span = second.span) :
    first = second := by
  rw [← first.placed_variant, ← second.placed_variant, variant, span]

theorem Statement.eq_of_variant_eq {first second : Statement}
    (variant : first.variant = second.variant) (span : first.span = second.span) :
    first = second := by
  rw [← first.placed_variant, ← second.placed_variant, variant, span]

/-- No part of a value is left out of its shape, and no two variants have one name: a value that
is no scalar is told by its shape. -/
theorem Part.eq_of_shape_eq {type : Stored} {first second : type.Value}
    (shaped : (Part.mk type first).shape ≠ .scalar)
    (same : (Part.mk type first).shape = (Part.mk type second).shape) : first = second := by
  cases type with
  | text | size | count | int64 | float => exact absurd rfl shaped
  | severity =>
    cases first
    cases second
    rfl
  | primitive => exact Primitive.storedName_injective (by simpa [shape] using same)
  | operator => exact BinaryOperator.storedName_injective (by simpa [shape] using same)
  | notes | statements | parameters | functions =>
    exact List.map_injective_iff.2 (Part.mk_injective _) (by simpa [shape] using same)
  | typeClause | body | typeName | expressionVariant | statementVariant =>
    cases first <;> cases second <;> simp_all [shape]
  | expression =>
    simp [shape] at same
    exact Expression.eq_of_variant_eq same.1 same.2
  | statement =>
    simp [shape] at same
    exact Statement.eq_of_variant_eq same.1 same.2
  | location | span | diagnostic | identifier | typeExpr | declaration | block | parameter
  | function | program =>
    cases first
    cases second
    simp_all [shape]

theorem Part.nodup_fieldNames (part : Part) : part.shape.fieldNames.Nodup := by
  obtain ⟨type, value⟩ := part
  cases type with
  | severity =>
    cases value
    exact List.nodup_nil
  | typeClause | body | typeName | statementVariant =>
    cases value <;> exact List.nodup_nil
  | expressionVariant =>
    cases value <;> simp [shape, Shape.fieldNames]
  | _ => simp [shape, Shape.fieldNames]

/-- The names in a shape, which are written as they are. -/
def Shape.names : Shape → List String
  | .scalar | .absent | .present _ | .items _ => []
  | .record fields => fields.map Prod.fst
  | .name variant | .tagged variant _ => [variant]
  | .taggedRecord variant fields => variant :: fields.map Prod.fst

section Transfer

variable {α β : Type} {json : JsonSyntax α} {json' : JsonSyntax β} {related : α → β → Prop}
  {plain : String → Prop}

/-- A relation that is kept by all constructs, as far as names are plain. -/
structure JsonSyntax.Keeps (json : JsonSyntax α) (json' : JsonSyntax β) (plain : String → Prop)
    (related : α → β → Prop) : Prop where
  null : related json.null json'.null
  name : ∀ {name : String}, plain name → related (json.name name) (json'.name name)
  array : ∀ {values : List α} {values' : List β}, List.Forall₂ related values values' →
    related (json.array values) (json'.array values')
  object : ∀ {names : List String} {values : List α} {values' : List β},
    (∀ name ∈ names, plain name) → names.length = values.length →
    List.Forall₂ related values values' →
    related (json.object (names.zip values)) (json'.object (names.zip values'))

theorem JsonSyntax.keeps_eq (json : JsonSyntax α) : json.Keeps json (fun _ => True) Eq where
  null := rfl
  name _ := rfl
  array same := by rw [List.forall₂_eq_eq_eq] at same; rw [same]
  object _ _ same := by rw [List.forall₂_eq_eq_eq] at same; rw [same]

variable {standsFor : Part → α → Prop} {standsFor' : Part → β → Prop}

theorem exists_forall₂_of_forall₂ {parts : List Part} {values : List α}
    (all : List.Forall₂ standsFor parts values)
    (h : ∀ part ∈ parts, ∀ value, standsFor part value →
      ∃ value', related value value' ∧ standsFor' part value') :
    ∃ values', List.Forall₂ related values values' ∧ List.Forall₂ standsFor' parts values' := by
  induction all with
  | nil => exact ⟨[], .nil, .nil⟩
  | cons first more ih =>
    rw [List.forall_mem_cons] at h
    obtain ⟨value', relatedFirst, first'⟩ := h.1 _ first
    obtain ⟨values', relatedMore, more'⟩ := ih h.2
    exact ⟨value' :: values', .cons relatedFirst relatedMore, .cons first' more'⟩

theorem Shape.Form.transfer {shape : Shape} {value : α} (form : shape.Form json standsFor value)
    (keeps : json.Keeps json' plain related) (names : ∀ name ∈ shape.names, plain name)
    (h : ∀ part ∈ shape.parts, ∀ value, standsFor part value →
      ∃ value', related value value' ∧ standsFor' part value') :
    ∃ value', related value value' ∧ shape.Form json' standsFor' value' := by
  have fields {fields : List (String × Part)} {values : List α}
      (parts : List.Forall₂ (fun field value => standsFor field.2 value) fields values)
      (names : ∀ name ∈ fields.map Prod.fst, plain name)
      (h : ∀ part ∈ fields.map Prod.snd, ∀ value, standsFor part value →
        ∃ value', related value value' ∧ standsFor' part value') :
      ∃ values', List.Forall₂ (fun field value => standsFor' field.2 value) fields values' ∧
        related (json.object ((fields.map Prod.fst).zip values))
          (json'.object ((fields.map Prod.fst).zip values')) := by
    have length : (fields.map Prod.fst).length = values.length :=
      (List.length_map _).trans parts.length_eq
    rw [← List.forall₂_map_left_iff] at parts
    obtain ⟨values', all, parts'⟩ := exists_forall₂_of_forall₂ parts h
    exact ⟨values', List.forall₂_map_left_iff.1 parts', keeps.object names length all⟩
  have single {variant : String} {value : α} {value' : β} (plainName : plain variant)
      (same : related value value') :
      related (json.object [(variant, value)]) (json'.object [(variant, value')]) :=
    keeps.object (List.forall_mem_singleton.2 plainName) rfl (.cons same .nil)
  cases form with
  | record parts =>
    obtain ⟨values', parts', whole⟩ := fields parts names h
    exact ⟨_, whole, .record parts'⟩
  | name variant => exact ⟨_, keeps.name (names variant List.mem_cons_self), .name variant⟩
  | tagged variant part =>
    obtain ⟨value', same, part'⟩ := h _ List.mem_cons_self _ part
    exact ⟨_, single (names variant List.mem_cons_self) same, .tagged variant part'⟩
  | taggedRecord variant parts =>
    obtain ⟨plainVariant, plainFields⟩ := List.forall_mem_cons.1 names
    obtain ⟨values', parts', whole⟩ := fields parts plainFields h
    exact ⟨_, single plainVariant whole, .taggedRecord variant parts'⟩
  | absent => exact ⟨_, keeps.null, .absent⟩
  | present part =>
    obtain ⟨value', same, part'⟩ := h _ List.mem_cons_self _ part
    exact ⟨value', same, .present part'⟩
  | items all =>
    obtain ⟨values', same, all'⟩ := exists_forall₂_of_forall₂ all h
    exact ⟨_, keeps.array same, .items all'⟩

theorem Shape.Form.imp {shape : Shape} {value : α} {standsFor' : Part → α → Prop}
    (form : shape.Form json standsFor value)
    (h : ∀ part ∈ shape.parts, ∀ value, standsFor part value → standsFor' part value) :
    shape.Form json standsFor' value := by
  obtain ⟨value', rfl, form'⟩ := form.transfer json.keeps_eq (fun _ _ => trivial)
    fun part member value stands => ⟨value, rfl, h part member value stands⟩
  exact form'

end Transfer

end SableSyntax
