/- SableSyntax/Proofs/Lexing/Inside
   digest: Inside a step too, every place that is come by cuts the text at what is left of it. -/

import SableSyntax.Proofs.Lexing.Steps

set_option autoImplicit false
set_option relaxedAutoImplicit false

namespace SableSyntax

def Cursor.drop (cursor : Cursor) (count : Nat) : Cursor :=
  ⟨cursor.location.after (cursor.rest.take count), cursor.rest.drop count⟩

/-- How the skipping of a gap goes on at a place and behind how many characters, unless it ends
there. -/
def gapStep? (place : Location) : GapMode → List Char → Option (GapMode × Nat)
  | .between, '/' :: '/' :: _ => some (.lineComment, 2)
  | .between, '/' :: '*' :: _ => some (.blockComment place, 2)
  | .between, c :: _ => if isBlank c then some (.between, 1) else none
  | .lineComment, c :: _ => some (if c = '\n' then .between else .lineComment, 1)
  | .blockComment _, '*' :: '/' :: _ => some (.between, 2)
  | .blockComment opening, _ :: _ => some (.blockComment opening, 1)
  | _, [] => none

def gapEnd : GapMode → Cursor → EStateM.Result SyntaxError Cursor Unit
  | .between, cursor | .lineComment, cursor => .ok () cursor
  | .blockComment opening, cursor =>
    .error ⟨.unterminatedComment, ⟨opening, cursor.location⟩⟩ cursor

theorem skipGap_eq_gapStep? (mode : GapMode) (cursor : Cursor) :
    skipGap mode cursor.location cursor.rest =
      match gapStep? cursor.location mode cursor.rest with
      | some (mode', count) =>
        skipGap mode' (cursor.drop count).location (cursor.drop count).rest
      | none => gapEnd mode cursor := by
  obtain ⟨place, rest⟩ := cursor
  fun_cases gapStep? place mode rest
  case case8 => cases mode <;> rfl
  all_goals simp_all [skipGap, gapEnd, Cursor.drop, Location.after]

namespace Cursor

variable {cursor inside reached : Cursor} {mode mode' : GapMode} {text : List Char}

/-- The cursors that the skipping of a gap comes by. -/
inductive SkipsBy (mode : GapMode) (cursor : Cursor) : GapMode → Cursor → Prop
  | start : SkipsBy mode cursor mode cursor
  | step {mode' mode'' : GapMode} {inside : Cursor} {count : Nat}
      (before : SkipsBy mode cursor mode' inside)
      (goesOn : gapStep? inside.location mode' inside.rest = some (mode'', count)) :
      SkipsBy mode cursor mode'' (inside.drop count)

theorem SkipsBy.trans {mode'' : GapMode} (first : SkipsBy mode cursor mode' inside)
    (second : SkipsBy mode' inside mode'' reached) : SkipsBy mode cursor mode'' reached := by
  induction second with
  | start => exact first
  | step _ goesOn ih => exact ih.step goesOn

theorem length_drop_lt_of_gapStep? {place : Location} {rest : List Char} {count : Nat}
    (goesOn : gapStep? place mode rest = some (mode', count)) :
    (rest.drop count).length < rest.length := by
  have positive : 0 < count ∧ rest ≠ [] := by
    revert goesOn
    fun_cases gapStep? place mode rest <;> rintro ⟨⟩ <;> simp
  have long := List.length_pos_iff.2 positive.2
  rw [List.length_drop]
  omega

theorem exists_skipsBy (mode : GapMode) (cursor : Cursor) :
    ∃ mode' reached, SkipsBy mode cursor mode' reached ∧
      skipGap mode cursor.location cursor.rest = gapEnd mode' reached := by
  rw [skipGap_eq_gapStep?]
  split
  · next mode' count goesOn =>
    obtain ⟨mode'', reached, skips, same⟩ := exists_skipsBy mode' (cursor.drop count)
    exact ⟨mode'', reached, (SkipsBy.start.step goesOn).trans skips, same⟩
  · exact ⟨mode, cursor, .start, rfl⟩
termination_by cursor.rest.length
decreasing_by exact length_drop_lt_of_gapStep? ‹_›

theorem IsIn.drop (h : cursor.IsIn text) (count : Nat) : (cursor.drop count).IsIn text := by
  obtain ⟨before, whole, place⟩ := h
  refine ⟨before ++ cursor.rest.take count, ?_, ?_⟩
  · rw [Cursor.drop, List.append_assoc, List.take_append_drop, whole]
  · rw [Cursor.drop, Location.after_append, place]

theorem IsIn.skipsBy (h : cursor.IsIn text) (skips : SkipsBy mode cursor mode' inside) :
    inside.IsIn text := by
  induction skips with
  | start => exact h
  | step _ _ ih => exact ih.drop _

theorem drop_of_scan {found : Scan} (scanned : scan cursor.rest = .ok found) :
    cursor.drop found.spelling.length =
      ⟨cursor.location.after found.spelling, found.rest⟩ := by
  rw [drop, ← spelling_append_rest_of_scan scanned, List.take_left, List.drop_left]

end Cursor

end SableSyntax
