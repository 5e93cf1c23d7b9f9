/- SableSyntax/Proofs/Persistence/Plain
   digest: There is a library that does what is documented. -/

import SableSyntax.Persistence.Plain
import SableSyntax.Proofs.Persistence.Numbers

set_option autoImplicit false
set_option relaxedAutoImplicit false

namespace SableSyntax

section Writing

def Shape.toJson : Shape → Json
  | .scalar | .absent => .null
  | .record fields => .object ((fields.map Prod.fst).zip (fields.map fun field => field.2.toJson))
  | .name variant => .string variant
  | .tagged variant content => .object [(variant, content.toJson)]
  | .taggedRecord variant fields => .object
      [(variant, .object ((fields.map Prod.fst).zip (fields.map fun field => field.2.toJson)))]
  | .present content => content.toJson
  | .items parts => .array (parts.map Part.toJson)

theorem Shape.form_toJson {shape : Shape} (shaped : shape ≠ .scalar) :
    shape.Form .value (fun inner json => json = inner.toJson) shape.toJson := by
  have fields (fields : List (String × Part)) : List.Forall₂
      (fun field json => json = field.2.toJson) fields (fields.map fun field => field.2.toJson) :=
    List.forall₂_map_right_iff.2 (List.forall₂_same.2 fun _ _ => rfl)
  cases shape with
  | scalar => exact absurd rfl shaped
  | record => exact .record (fields _)
  | name variant => exact .name variant
  | tagged variant content => exact .tagged variant rfl
  | taggedRecord variant => exact .taggedRecord variant (fields _)
  | absent => exact .absent
  | present content => exact .present rfl
  | items parts => exact .items (List.forall₂_map_right_iff.2 (List.forall₂_same.2 fun _ _ => rfl))

theorem Expression.variantToJson_placed (expression : Expression) :
    (expression.variant.placed default).variantToJson = expression.variantToJson := by
  cases expression <;> rfl

theorem Part.toJson_eq {part : Part} (shaped : part.shape ≠ .scalar) :
    part.toJson = part.shape.toJson := by
  obtain ⟨type, value⟩ := part
  cases type with
  | text | size | count | int64 | float => exact absurd rfl shaped
  | severity | typeName | expressionVariant | statementVariant | typeClause | body =>
    cases value <;> rfl
  | notes | statements | parameters | functions =>
    rw [shape, Shape.toJson, List.map_map]
    rfl
  | expression =>
    change nodeToJson _ _ = Json.object [("kind", (value.variant.placed default).variantToJson), _]
    rw [Expression.variantToJson_placed]
    rfl
  | location | span | diagnostic | identifier | primitive | typeExpr | operator | declaration
  | statement | block | parameter | function | program => rfl

end Writing

section Reading

variable {levels : Nat} {part : Part} {json : Json}

/-- Whether a part is given by a JSON value. -/
def Given (levels : Nat) (part : Part) (json : Json) : Prop :=
  part.type.ofJson? levels json = some part.value

variable {members : List (String × Json)} {fields : List (String × Part)}

theorem filter_name_eq_singleton (distinct : (members.map Prod.fst).Nodup)
    {member : String × Json} (h : member ∈ members) :
    members.filter (fun other => other.1 == member.1) = [member] := by
  induction members with
  | nil => cases h
  | cons first members ih =>
    obtain ⟨fresh, distinct⟩ := List.nodup_cons.1 distinct
    rcases List.mem_cons.1 h with rfl | later
    · have others : members.filter (fun other => other.1 == member.1) = [] := by
        refine List.filter_eq_nil_iff.2 fun other hother same => fresh ?_
        rw [← beq_iff_eq.1 same]
        exact List.mem_map_of_mem hother
      rw [List.filter_cons, if_pos (beq_self_eq_true _), others]
    · have differs : ¬ (first.1 == member.1) = true := by
        intro same
        rw [beq_iff_eq.1 same] at fresh
        exact fresh (List.mem_map_of_mem later)
      rw [List.filter_cons, if_neg differs, ih distinct later]

theorem fields?_object (distinct : (members.map Prod.fst).Nodup) :
    (Json.object members).fields? (members.map Prod.fst) =
      some (members.map fun member => some member.2) := by
  have found (chosen : List (String × Json)) (within : ∀ member ∈ chosen, member ∈ members) :
      (chosen.map Prod.fst).mapM (fun name =>
          Json.atMostOne? ((members.filter (fun other => other.1 == name)).map Prod.snd)) =
        some (chosen.map fun member => some member.2) := by
    induction chosen with
    | nil => rfl
    | cons member chosen ih =>
      have own := filter_name_eq_singleton distinct (within member List.mem_cons_self)
      have others := ih fun other hother => within other (List.mem_cons_of_mem _ hother)
      rw [List.map_cons, List.mapM_cons, own, others]
      rfl
  exact found members fun _ h => h

theorem exists_fields? (distinct : (fields.map Prod.fst).Nodup)
    (form : Shape.Form .value (Given levels) (.record fields) json) :
    ∃ values, List.Forall₂ (fun field value => Given levels field.2 value) fields values ∧
      json.fields? (fields.map Prod.fst) = some (values.map some) := by
  cases form with
  | @record _ values parts =>
    have names : ((fields.map Prod.fst).zip values).map Prod.fst = fields.map Prod.fst :=
      List.map_fst_zip (by rw [List.length_map, parts.length_eq])
    have contents : ((fields.map Prod.fst).zip values).map (fun member => some member.2) =
        values.map some := by
      have seconds : ((fields.map Prod.fst).zip values).map Prod.snd = values :=
        List.map_snd_zip (by rw [List.length_map, parts.length_eq])
      simpa [Function.comp_def] using congrArg (List.map some) seconds
    refine ⟨values, parts, ?_⟩
    have found := fields?_object (names.symm ▸ distinct)
    rw [names, contents] at found
    exact found

theorem optionOfJson?_of_given {α : Type} {ofJson? : Json → Option α} {value : α}
    (given : ofJson? json = some value) (absent : ofJson? .null = none) :
    optionOfJson? ofJson? (some json) = some (some value) := by
  have present : json ≠ .null := by
    rintro rfl
    rw [absent] at given
    cases given
  rw [optionOfJson?, given, Option.map_some]
  exact present

theorem listOfJson?_of_given {α : Type} {ofJson? : Nat → Json → Option α} {items : List α}
    {values : List Json}
    (given : List.Forall₂ (fun item value => ofJson? levels value = some item) items values) :
    listOfJson? ofJson? (levels + 1) (.array values) = some items := by
  change values.mapM (ofJson? levels) = some items
  induction given with
  | nil => rfl
  | cons first more ih => rw [List.mapM_cons, first, ih]; rfl

theorem ofJson?_of_form (form : part.shape.Form .value (Given levels) json) :
    part.type.ofJson? (levels + part.shape.levels) json = some part.value := by
  have distinct := part.nodup_fieldNames
  obtain ⟨type, value⟩ := part
  cases type with
  | text | size | count | int64 | float => cases form
  | severity =>
    cases value
    cases form
    rfl
  | primitive | operator =>
    cases form
    cases value <;> rfl
  | typeName | statementVariant =>
    cases value <;> cases form with
    | tagged _ part =>
      simp only [Given, Stored.ofJson?] at part
      simp [Part.shape, Shape.levels, Stored.ofJson?, TypeName.ofJson?, StatementVariant.ofJson?,
        JsonSyntax.value, Json.choice?, part]
  | span =>
    obtain ⟨_, _ | ⟨first, _ | ⟨second, _ | _⟩⟩, found⟩ := exists_fields? distinct form
    simp only [Given, Stored.ofJson?] at first second
    simp only [List.map_cons, List.map_nil] at found
    simp [Part.shape, Shape.levels, Stored.ofJson?, Span.ofJson?, found, first, second]
  | identifier | expression | statement | block | program =>
    obtain ⟨_, _ | ⟨first, _ | ⟨second, _ | _⟩⟩, found⟩ := exists_fields? distinct form
    simp only [Given, Stored.ofJson?] at first second
    simp only [List.map_cons, List.map_nil] at found
    simp [Part.shape, Shape.levels, Stored.ofJson?, Identifier.ofJson?, Expression.ofJson?,
      Statement.ofJson?, Block.ofJson?, Program.ofJson?, found, first, second]
  | location | typeExpr | declaration =>
    obtain ⟨_, _ | ⟨first, _ | ⟨second, _ | ⟨third, _ | _⟩⟩⟩, found⟩ := exists_fields? distinct form
    simp only [Given, Stored.ofJson?] at first second third
    simp only [List.map_cons, List.map_nil] at found
    simp [Part.shape, Shape.levels, Stored.ofJson?, Location.ofJson?, TypeExpr.ofJson?,
      Declaration.ofJson?, found, first, second, third]
  | parameter =>
    obtain ⟨_, _ | ⟨first, _ | ⟨second, _ | ⟨third, _ | _⟩⟩⟩, found⟩ := exists_fields? distinct form
    simp only [Given, Stored.ofJson?] at first second third
    simp only [List.map_cons, List.map_nil] at found
    simp [Part.shape, Shape.levels, Stored.ofJson?, Parameter.ofJson?, found, first, second, third]
  | diagnostic =>
    obtain ⟨_, _ | ⟨first, _ | ⟨second, _ | ⟨third, _ | ⟨fourth, _ | _⟩⟩⟩⟩, found⟩ :=
      exists_fields? distinct form
    simp only [Given, Stored.ofJson?] at first second third fourth
    simp only [List.map_cons, List.map_nil] at found
    simp [Part.shape, Shape.levels, Stored.ofJson?, Diagnostic.ofJson?, found, first, second, third,
      fourth]
  | function =>
    obtain ⟨_, _ | ⟨first, _ | ⟨second, _ | ⟨third, _ | ⟨fourth, _ | ⟨fifth, _ | _⟩⟩⟩⟩⟩, found⟩ :=
      exists_fields? distinct form
    simp only [Given, Stored.ofJson?] at first second third fourth fifth
    simp only [List.map_cons, List.map_nil] at found
    simp [Part.shape, Shape.levels, Stored.ofJson?, Function.ofJson?, found, first, second, third,
      fourth, fifth]
  | typeClause | body =>
    cases value with
    | none =>
      cases form
      rfl
    | some content =>
      cases form with
      | present part => exact optionOfJson?_of_given part (by cases levels <;> rfl)
  | notes =>
    cases form with
    | items all =>
      exact @listOfJson?_of_given levels _ (fun _ => Json.string?) _ _
        (List.forall₂_map_left_iff.1 all)
  | statements | parameters | functions =>
    cases form with
    | items all => exact listOfJson?_of_given (List.forall₂_map_left_iff.1 all)
  | expressionVariant =>
    cases value with
    | assignment target value =>
      cases form with
      | taggedRecord _ parts =>
        obtain ⟨_, _ | ⟨first, _ | ⟨second, _ | _⟩⟩, found⟩ :=
          exists_fields? distinct (.record parts)
        simp only [Given, Stored.ofJson?] at first second
        simp only [List.map_cons, List.map_nil, JsonSyntax.value] at found
        simp [Part.shape, Shape.levels, Stored.ofJson?, ExpressionVariant.ofJson?,
          ExpressionVariant.ofFields?, JsonSyntax.value, Json.choice?, found, first, second]
    | binary operator left right =>
      cases form with
      | taggedRecord _ parts =>
        obtain ⟨_, _ | ⟨first, _ | ⟨second, _ | ⟨third, _ | _⟩⟩⟩, found⟩ :=
          exists_fields? distinct (.record parts)
        simp only [Given, Stored.ofJson?] at first second third
        simp only [List.map_cons, List.map_nil, JsonSyntax.value] at found
        simp [Part.shape, Shape.levels, Stored.ofJson?, ExpressionVariant.ofJson?,
          ExpressionVariant.ofFields?, JsonSyntax.value, Json.choice?, found, first, second,
          third]
    | identifier | integer | float | parenthesized =>
      cases form with
      | tagged _ part =>
        simp only [Given, Stored.ofJson?] at part
        simp [Part.shape, Shape.levels, Stored.ofJson?, ExpressionVariant.ofJson?, JsonSyntax.value,
          Json.choice?, part]

end Reading

theorem Primitive.isPlain_storedName (primitive : Primitive) : isPlain primitive.storedName := by
  cases primitive <;> decide

theorem BinaryOperator.isPlain_storedName (operator : BinaryOperator) :
    isPlain operator.storedName := by
  cases operator <;> decide

theorem Part.isPlain_names (part : Part) : ∀ name ∈ part.shape.names, isPlain name := by
  obtain ⟨type, value⟩ := part
  cases type with
  | primitive => exact List.forall_mem_singleton.2 value.isPlain_storedName
  | operator => exact List.forall_mem_singleton.2 value.isPlain_storedName
  | severity | typeName | expressionVariant | statementVariant | typeClause | body =>
    cases value <;> exact List.all_eq_true.1 (by simp only [shape, Shape.names, List.map]; decide)
  | _ => exact List.all_eq_true.1 (by simp only [shape, Shape.names, List.map]; decide)

namespace JsonLibrary

variable {levels : Nat} {part : Part} {text : String} {json : Json}

theorem plain_read?_eq (read : Json.read? text = some json) (type : Stored) :
    plain.read? levels type text = type.ofJson? levels json :=
  congrArg (fun read => read >>= type.ofJson? levels) read

theorem toString_natCast (value : Nat) : toString (value : Int) = toString value := rfl

theorem plain_readsAs_iff :
    plain.ReadsAs levels part text ↔ ∃ json, Json.read? text = some json ∧ Given levels part json :=
  Option.bind_eq_some_iff

/-- Values are stored by way of JSON values as a library is documented to store them. -/
theorem plain_isDocumented : plain.IsDocumented where
  writes_shape part shaped := by
    have same (inner : Part) (json : Json) (h : json = inner.toJson) :
        ∃ text, text = json.write ∧ text = plain.write inner := ⟨json.write, rfl, by rw [h]; rfl⟩
    obtain ⟨_, rfl, form⟩ := (Shape.form_toJson shaped).transfer keeps_write part.isPlain_names
      fun inner _ json => same inner json
    rw [← Part.toJson_eq shaped] at form
    exact form
  reads_shape levels part text _ form := by
    obtain ⟨json, read, form⟩ := form.transfer keeps_read part.isPlain_names
      fun inner _ text reads => plain_readsAs_iff.1 reads
    exact ⟨part.value, (plain_read?_eq read _).trans (ofJson?_of_form form), rfl⟩
  writes_size value := (write_integer value).trans (toString_natCast value)
  reads_size levels value inRange := by
    rw [← toString_natCast, plain_read?_eq (read?_toString value), Stored.ofJson?]
    exact nat?_of_lt inRange
  writes_count value := (write_integer value).trans (toString_natCast value)
  reads_count levels value inRange := by
    rw [← toString_natCast, plain_read?_eq (read?_toString value), Stored.ofJson?]
    exact nat?_of_lt inRange
  writes_int64 value := write_integer value.toInt
  reads_int64 levels value :=
    (plain_read?_eq (read?_toString value.toInt) _).trans (int64OfJson?_toInt value)
  restores_text levels value := plain_read?_eq (read?_write_string value) _
  restores_float levels value finite := by
    obtain ⟨json, read, given⟩ := Binary64.exists_read?_write finite
    exact (plain_read?_eq read _).trans given

end JsonLibrary

end SableSyntax
