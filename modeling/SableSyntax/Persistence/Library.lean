/- SableSyntax/Persistence/Library
   digest: A library that stores values as JSON texts, and what is known of it. -/

import Mathlib.Data.List.Forall2
import SableSyntax.Persistence.Shape

set_option autoImplicit false
set_option relaxedAutoImplicit false

namespace SableSyntax

/-- A library for JSON texts together with the code that it derives from the declarations of the
stored types. The reader is told how many more brackets may open around the parts of what it reads;
`limit` is that number for a whole text. -/
structure JsonLibrary where
  write : Part → String
  read? : (levels : Nat) → (type : Stored) → String → Option type.Value
  limit : Nat

structure JsonSyntax (α : Type) where
  null : α
  name : String → α
  array : List α → α
  object : List (String × α) → α

def commaJoined : List String → String
  | [] => ""
  | [text] => text
  | text :: texts => text ++ "," ++ commaJoined texts

def memberText (member : String × String) : String := "\"" ++ member.1 ++ "\":" ++ member.2

def JsonSyntax.compact : JsonSyntax String where
  null := "null"
  name text := "\"" ++ text ++ "\""
  array items := "[" ++ commaJoined items ++ "]"
  object members := "\x7b" ++ commaJoined (members.map memberText) ++ "\x7d"

/-- The externally tagged form of a shape with the fields in their order, when it is known what may
stand for the parts. -/
inductive Shape.Form {α : Type} (json : JsonSyntax α) (standsFor : Part → α → Prop) :
    Shape → α → Prop
  | record {fields : List (String × Part)} {values : List α}
      (parts : List.Forall₂ (fun field value => standsFor field.2 value) fields values) :
      Form json standsFor (.record fields) (json.object ((fields.map Prod.fst).zip values))
  | name (variant : String) : Form json standsFor (.name variant) (json.name variant)
  | tagged (variant : String) {content : Part} {value : α} (part : standsFor content value) :
      Form json standsFor (.tagged variant content) (json.object [(variant, value)])
  | taggedRecord (variant : String) {fields : List (String × Part)} {values : List α}
      (parts : List.Forall₂ (fun field value => standsFor field.2 value) fields values) :
      Form json standsFor (.taggedRecord variant fields)
        (json.object [(variant, json.object ((fields.map Prod.fst).zip values))])
  | absent : Form json standsFor .absent json.null
  | present {content : Part} {value : α} (part : standsFor content value) :
      Form json standsFor (.present content) value
  | items {parts : List Part} {values : List α} (all : List.Forall₂ standsFor parts values) :
      Form json standsFor (.items parts) (json.array values)

namespace JsonLibrary

variable (library : JsonLibrary)

def ReadsAs (levels : Nat) (part : Part) (text : String) : Prop :=
  library.read? levels part.type text = some part.value

/-- What is documented of the library and of the code that it derives: values are written in the
externally tagged form, and texts of that form are read; whole numbers are written in digits, and
read if they are in range; strings and finite floats are written so that they are read back. -/
structure IsDocumented : Prop where
  /-- A value with a shape is written in its form, with its parts as these are written. -/
  writes_shape : ∀ part : Part, part.shape ≠ .scalar →
    part.shape.Form .compact (fun inner text => text = library.write inner) (library.write part)
  /-- A text in the form of a shape is read as a value of that shape if the texts of the parts are
  read as these, and if the fields can be told apart. -/
  reads_shape : ∀ (levels : Nat) (part : Part) (text : String), part.shape.fieldNames.Nodup →
    part.shape.Form .compact (library.ReadsAs levels) text →
    ∃ value, library.read? (levels + part.shape.levels) part.type text = some value ∧
      (Part.mk part.type value).shape = part.shape
  writes_size : ∀ value, library.write ⟨.size, value⟩ = toString value
  reads_size : ∀ levels value, value < UInt64.size →
    library.read? levels .size (toString value) = some value
  writes_count : ∀ value, library.write ⟨.count, value⟩ = toString value
  reads_count : ∀ levels value, value < UInt32.size →
    library.read? levels .count (toString value) = some value
  writes_int64 : ∀ value, library.write ⟨.int64, value⟩ = toString value.toInt
  reads_int64 : ∀ levels (value : Int64),
    library.read? levels .int64 (toString value.toInt) = some value
  restores_text : ∀ levels value,
    library.read? levels .text (library.write ⟨.text, value⟩) = some value
  restores_float : ∀ levels (value : Binary64), value.isFinite →
    library.read? levels .float (library.write ⟨.float, value⟩) = some value

end JsonLibrary

end SableSyntax
