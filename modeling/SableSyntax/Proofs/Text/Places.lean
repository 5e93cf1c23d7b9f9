/- SableSyntax/Proofs/Text/Places
   digest: Places that lie in a text, and stretches that can be cut out of it. -/

import SableSyntax.Text.Span
import Mathlib.Data.List.DropRight

set_option autoImplicit false
set_option relaxedAutoImplicit false

namespace SableSyntax

def lastLine (text : List Char) : List Char := text.rtakeWhile (· != '\n')

/-- Whether a place lies in a text: its bytes are those of a part that the text starts with, its
line is one more than the line feeds in that part, and its column one more than the characters
behind the last of them. -/
def Location.IsIn (text : List Char) (place : Location) : Prop :=
  ∃ before behind, text = before ++ behind ∧ place.offset = byteLength before ∧
    place.line = 1 + before.count '\n' ∧ place.column = 1 + (lastLine before).length

/-- Whether a stretch lies in a text: both ends do, and it does not end before it starts. -/
structure Span.IsIn (text : List Char) (span : Span) : Prop where
  start : span.start.IsIn text
  stop : span.stop.IsIn text
  ordered : span.start.offset ≤ span.stop.offset

def Span.Before (first second : Span) : Prop := first.stop.offset ≤ second.start.offset

namespace Location

theorem start_after (before : List Char) :
    start.after before =
      ⟨byteLength before, 1 + before.count '\n', 1 + (lastLine before).length⟩ := by
  induction before using List.reverseRecOn with
  | nil => rfl
  | append_singleton before c ih =>
    rw [after_append, ih, after_cons, after_nil, advance]
    by_cases newline : c = '\n'
    · subst newline
      simp [lastLine, Nat.add_assoc]
    · simp [lastLine, newline, Nat.add_assoc]

theorem isIn_iff {text : List Char} {place : Location} :
    place.IsIn text ↔ ∃ before behind, text = before ++ behind ∧ place = start.after before := by
  constructor
  · rintro ⟨before, behind, whole, offset, line, column⟩
    refine ⟨before, behind, whole, ?_⟩
    rw [start_after, ← offset, ← line, ← column]
  · rintro ⟨before, behind, whole, rfl⟩
    rw [start_after]
    exact ⟨before, behind, whole, rfl, rfl, rfl⟩

theorem isIn_after {text before behind : List Char} (whole : text = before ++ behind) :
    (start.after before).IsIn text :=
  isIn_iff.2 ⟨before, behind, whole, rfl⟩

theorem IsIn.offset_le {text : List Char} {place : Location} (h : place.IsIn text) :
    place.offset ≤ byteLength text := by
  obtain ⟨before, behind, rfl, offset, -⟩ := h
  rw [offset, byteLength_append]
  exact Nat.le_add_right _ _

end Location

theorem byteLength_pos {text : List Char} (nonempty : text ≠ []) : 0 < byteLength text := by
  obtain ⟨c, text, rfl⟩ := List.exists_cons_of_ne_nil nonempty
  exact Nat.add_pos_left c.utf8Size_pos _

theorem prefix_of_byteLength_le {first second text : List Char} (h : first <+: text)
    (h' : second <+: text) (shorter : byteLength first ≤ byteLength second) : first <+: second := by
  rcases List.prefix_or_prefix_of_prefix h h' with front | ⟨more, rfl⟩
  · exact front
  · cases more with
    | nil => simp
    | cons c more =>
      have := c.utf8Size_pos
      simp only [byteLength_append, byteLength_cons] at shorter
      omega

namespace Span

variable {text : List Char} {span first last : Span}

theorem IsIn.slice? (h : span.IsIn text) :
    ∃ covered, span.slice? text = some covered ∧ span.length? = some (byteLength covered) := by
  obtain ⟨before, behind, whole, starts, -⟩ := h.start
  obtain ⟨before', behind', whole', stops, -⟩ := h.stop
  obtain ⟨covered, rfl⟩ := prefix_of_byteLength_le ⟨behind, whole.symm⟩ ⟨behind', whole'.symm⟩
    (starts ▸ stops ▸ h.ordered)
  rw [byteLength_append] at stops
  refine ⟨covered, slice?_eq_some_iff.2 ⟨before, behind', ?_, starts, stops⟩, ?_⟩
  · rw [whole', List.append_assoc]
  · rw [length?, if_pos h.ordered, starts, stops, Nat.add_sub_cancel_left]

theorem IsIn.point {place : Location} (h : place.IsIn text) : (point place).IsIn text :=
  ⟨h, h, Nat.le_refl _⟩

theorem isIn_after {before covered behind : List Char}
    (whole : text = before ++ (covered ++ behind)) :
    IsIn text ⟨Location.start.after before, (Location.start.after before).after covered⟩ := by
  refine ⟨Location.isIn_after whole, ?_, ?_⟩
  · rw [← Location.after_append]
    exact Location.isIn_after (by rw [whole, List.append_assoc])
  · rw [Location.offset_after _ covered]
    exact Nat.le_add_right _ _

theorem slice?_after {before covered behind : List Char}
    (whole : text = before ++ (covered ++ behind)) :
    slice? ⟨Location.start.after before, (Location.start.after before).after covered⟩ text =
      some covered := by
  refine slice?_eq_some_iff.2 ⟨before, behind, whole, ?_, ?_⟩
  · rw [Location.start_after]
  · rw [Location.offset_after, Location.start_after]

end Span

end SableSyntax
