/- SableSyntax/Proofs/Persistence/Restoring
   digest: Stored values are restored part by part, by any library that does what is documented. -/

import SableSyntax.Proofs.Persistence.Plain

set_option autoImplicit false
set_option relaxedAutoImplicit false

namespace SableSyntax

namespace Part

inductive Fits : Part → Prop
  | intro {part : Part} (inRange : part.type.InRange part.value)
      (inner : ∀ inner ∈ part.shape.parts, Fits inner) : Fits part

/-- No more brackets than a number of levels are open around any part. -/
inductive Within : Nat → Part → Prop
  | intro {part : Part} {levels : Nat} (inner : ∀ inner ∈ part.shape.parts, Within levels inner) :
      Within (levels + part.shape.levels) part

/-- Whether a value fits and keeps within a number of levels, as far as this is found out in a
number of steps from a value to its parts. -/
def fitsWithin : (steps levels : Nat) → Part → Bool
  | 0, _, _ => false
  | steps + 1, levels, part =>
    decide (part.type.InRange part.value) && decide (part.shape.levels ≤ levels) &&
      part.shape.parts.all (fitsWithin steps (levels - part.shape.levels))

theorem fits_and_within {steps levels : Nat} {part : Part} (h : part.fitsWithin steps levels) :
    part.Fits ∧ part.Within levels := by
  induction steps generalizing levels part with
  | zero => cases h
  | succ steps ih =>
    simp only [fitsWithin, Bool.and_eq_true, decide_eq_true_eq, List.all_eq_true] at h
    obtain ⟨⟨inRange, enough⟩, inner⟩ := h
    rw [← Nat.sub_add_cancel enough]
    exact ⟨.intro inRange fun other member => (ih (inner other member)).1,
      .intro fun other member => (ih (inner other member)).2⟩

end Part

namespace JsonLibrary

variable {library : JsonLibrary}

def store (library : JsonLibrary) (type : Stored) (value : type.Value) : String :=
  library.write ⟨type, value⟩

def restore? (library : JsonLibrary) (type : Stored) (text : String) : Option type.Value :=
  library.read? library.limit type text

/-- A scalar in range is read back wherever it stands. -/
theorem IsDocumented.reads_scalar (documented : library.IsDocumented) (levels : Nat) {part : Part}
    (scalar : part.shape = .scalar) (inRange : part.type.InRange part.value) :
    library.ReadsAs levels part (library.write part) := by
  obtain ⟨type, value⟩ := part
  unfold ReadsAs
  cases type with
  | text => exact documented.restores_text levels value
  | size => exact documented.writes_size value ▸ documented.reads_size levels value inRange
  | count => exact documented.writes_count value ▸ documented.reads_count levels value inRange
  | int64 => exact documented.writes_int64 value ▸ documented.reads_int64 levels value
  | float => exact documented.restores_float levels value inRange
  | severity | primitive | operator | typeName | expressionVariant | statementVariant | typeClause
  | body => cases value <;> cases scalar
  | _ => cases scalar

/-- What is written for a value is read as this value, if its numbers are in range and the reader
may go as deep as its parts lie. -/
theorem IsDocumented.readsAs_write (documented : library.IsDocumented) {levels : Nat} {part : Part}
    (within : part.Within levels) (fits : part.Fits) :
    library.ReadsAs levels part (library.write part) := by
  induction within with
  | @intro part levels inner ih =>
    obtain ⟨inRange, fitsInner⟩ := fits
    by_cases scalar : part.shape = .scalar
    · exact documented.reads_scalar _ scalar inRange
    · -- The form that is written is one that is read, since all parts are read as they are written.
      have form : part.shape.Form .compact (library.ReadsAs levels) (library.write part) := by
        refine (documented.writes_shape part scalar).imp fun inner member text written => ?_
        exact written ▸ ih inner member (fitsInner inner member)
      obtain ⟨value, read, same⟩ :=
        documented.reads_shape levels part _ part.nodup_fieldNames form
      rw [ReadsAs, read, Part.eq_of_shape_eq (same ▸ scalar) same]

end JsonLibrary

/-- Whatever library stores a value as is restored as that value, with all its places and all bits
of its floats, and is stored as the same text again: spans, types, diagnostics, expressions,
statements and programs, and all that they are made of. -/
theorem stored_values_restored {library : JsonLibrary} (documented : library.IsDocumented)
    (type : Stored) (value : type.Value) (fits : (Part.mk type value).Fits)
    (within : (Part.mk type value).Within library.limit) :
    library.restore? type (library.store type value) = some value ∧
    (library.restore? type (library.store type value)).map (library.store type) =
      some (library.store type value) := by
  have restored : library.restore? type (library.store type value) = some value :=
    documented.readsAs_write within fits
  refine ⟨restored, ?_⟩
  rw [restored, Option.map_some]

def halfProgram : Program where
  functions := [⟨⟨"half", .point .start⟩, [], ⟨.named "T", 1, .point .start⟩,
    some ⟨[.expression (.float ⟨0x3FE0000000000000⟩ (.point .start)) (.point .start)],
      .point .start⟩, .point .start⟩]
  span := .point .start

theorem program_with_float_restored :
    JsonLibrary.plain.restore? .program (JsonLibrary.plain.store .program halfProgram) =
      some halfProgram := by
  obtain ⟨fits, within⟩ := @Part.fits_and_within 12 JsonLibrary.plain.limit ⟨.program, halfProgram⟩
    (by decide +kernel)
  exact (stored_values_restored JsonLibrary.plain_isDocumented .program halfProgram fits within).1

end SableSyntax
