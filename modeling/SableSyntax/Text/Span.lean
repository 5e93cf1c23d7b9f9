/- SableSyntax/Text/Span
   digest: Stretches of a source text between two places, and the text they cover. -/

import SableSyntax.Text.Location

set_option autoImplicit false
set_option relaxedAutoImplicit false

namespace SableSyntax

/-- A half-open stretch of a text: `stop` is the place behind its last character. -/
structure Span where
  start : Location
  stop : Location
  deriving DecidableEq, Repr

/-- A text cut behind its first `count` bytes, if a character ends there. -/
def cutBytes? : (count : Nat) → (text : List Char) → Option (List Char × List Char)
  | 0, text => some ([], text)
  | _ + 1, [] => none
  | count + 1, c :: text =>
    if c.utf8Size ≤ count + 1 then
      (cutBytes? (count + 1 - c.utf8Size) text).map fun (left, right) => (c :: left, right)
    else none

theorem cutBytes?_eq_some_iff {count : Nat} {text left right : List Char} :
    cutBytes? count text = some (left, right) ↔ text = left ++ right ∧ byteLength left = count := by
  fun_induction cutBytes? count text generalizing left with
  | case1 text =>
    cases left with
    | nil => simp [eq_comm]
    | cons c left =>
      have := c.utf8Size_pos
      simp only [byteLength_cons, Option.some.injEq, Prod.mk.injEq, reduceCtorEq, false_and,
        false_iff, not_and]
      omega
  | case2 count => cases left <;> simp
  | case3 count c text fits ih =>
    cases left with
    | nil => simp
    | cons d left =>
      simp only [Option.map_eq_some_iff, Prod.exists, Prod.mk.injEq, List.cons.injEq,
        List.cons_append, byteLength_cons]
      constructor
      · rintro ⟨l, r, h, ⟨rfl, rfl⟩, rfl⟩
        obtain ⟨rfl, hl⟩ := ih.1 h
        exact ⟨⟨rfl, rfl⟩, by omega⟩
      · rintro ⟨⟨rfl, rfl⟩, h⟩
        exact ⟨left, right, ih.2 ⟨rfl, by omega⟩, ⟨rfl, rfl⟩, rfl⟩
  | case4 count c text fits =>
    cases left with
    | nil => simp
    | cons d left =>
      simp only [List.cons_append, List.cons.injEq, byteLength_cons, reduceCtorEq, false_iff,
        not_and, and_imp]
      rintro rfl _
      omega

namespace Span

def point (place : Location) : Span := ⟨place, place⟩

instance : Inhabited Span := ⟨point .start⟩

def through (first last : Span) : Span := ⟨first.start, last.stop⟩

/-- Whether `inner` lies within `outer`, judged by bytes. -/
def contains (outer inner : Span) : Bool :=
  outer.start.offset ≤ inner.start.offset && inner.stop.offset ≤ outer.stop.offset

/-- The number of bytes covered; a stretch that ends before it starts has none. -/
def length? (span : Span) : Option Nat :=
  if span.start.offset ≤ span.stop.offset then some (span.stop.offset - span.start.offset) else none

def isEmpty? (span : Span) : Option Bool :=
  span.length?.map (· == 0)

/-- The characters covered, if both ends fall between characters of the text. -/
def slice? (span : Span) (text : List Char) : Option (List Char) := do
  let length ← span.length?
  let (_, rest) ← cutBytes? span.start.offset text
  let (covered, _) ← cutBytes? length rest
  return covered

theorem slice?_eq_some_iff {span : Span} {text covered : List Char} :
    span.slice? text = some covered ↔ ∃ before behind, text = before ++ (covered ++ behind) ∧
      span.start.offset = byteLength before ∧
      span.stop.offset = byteLength before + byteLength covered := by
  have opened : span.slice? text = some covered ↔ ∃ length, span.length? = some length ∧
      ∃ before rest, cutBytes? span.start.offset text = some (before, rest) ∧
        ∃ behind, cutBytes? length rest = some (covered, behind) := by
    simp [slice?, Option.bind_eq_some_iff]
  rw [opened]
  constructor
  · rintro ⟨length, long, before, rest, front, behind, cut⟩
    obtain ⟨rfl, starts⟩ := cutBytes?_eq_some_iff.1 front
    obtain ⟨rfl, stops⟩ := cutBytes?_eq_some_iff.1 cut
    simp only [length?, Option.ite_none_right_eq_some, Option.some.injEq] at long
    exact ⟨before, behind, rfl, starts.symm, by omega⟩
  · rintro ⟨before, behind, rfl, starts, stops⟩
    refine ⟨byteLength covered, ?_, before, _, cutBytes?_eq_some_iff.2 ⟨rfl, starts.symm⟩, behind,
      cutBytes?_eq_some_iff.2 ⟨rfl, rfl⟩⟩
    rw [length?, if_pos (by omega), starts, stops, Nat.add_sub_cancel_left]

instance : ToString Span where
  toString span :=
    if span.start.line = span.stop.line then
      if span.start.column = span.stop.column then toString span.start
      else toString span.start ++ "-" ++ toString span.stop.column
    else toString span.start ++ "-" ++ toString span.stop

end Span

end SableSyntax
