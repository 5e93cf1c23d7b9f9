/- SableSyntax/Proofs/Text/Lines
   digest: The line that a place is on is the one that the line feeds before it count off. -/

import SableSyntax.Proofs.Text.Places
import SableSyntax.Text.Lines

set_option autoImplicit false
set_option relaxedAutoImplicit false

namespace SableSyntax

def withoutReturn (line : List Char) : List Char :=
  if line.getLast? = some '\r' then line.dropLast else line

namespace Location

variable {text : List Char}

theorem line_after (place : Location) (text : List Char) :
    (place.after text).line = place.line + text.count '\n' := by
  induction text generalizing place with
  | nil => rfl
  | cons c text ih =>
    rw [after_cons, ih, List.count_cons, advance]
    by_cases feed : c = '\n'
    · simp only [feed, ↓reduceIte, beq_self_eq_true]
      omega
    · simp [feed]

theorem column_after_of_inLine (inLine : '\n' ∉ text) (place : Location) :
    (place.after text).column = place.column + text.length := by
  induction text generalizing place with
  | nil => rfl
  | cons c text ih =>
    rw [List.mem_cons, not_or] at inLine
    rw [after_cons, ih inLine.2, advance, if_neg (Ne.symm inLine.1), List.length_cons,
      Nat.add_right_comm, Nat.add_assoc]

theorem line_eq_after_iff (place : Location) :
    place.line = (place.after text).line ↔ '\n' ∉ text := by
  rw [line_after, ← List.count_eq_zero]
  omega

theorem offset_lt_after_iff (place : Location) :
    place.offset < (place.after text).offset ↔ text ≠ [] := by
  rw [offset_after]
  constructor
  · rintro less rfl
    exact absurd less (Nat.lt_irrefl _)
  · exact fun nonempty => Nat.lt_add_of_pos_right (byteLength_pos nonempty)

end Location

section Returns

variable {line more : List Char}

theorem withoutReturn_cons {c : Char} (other : c = '\r' → line ≠ []) :
    withoutReturn (c :: line) = c :: withoutReturn line := by
  cases line with
  | nil => simpa [withoutReturn] using other
  | cons d line =>
    simp only [withoutReturn, List.getLast?_cons_cons, List.dropLast_cons_of_ne_nil, ne_eq,
      List.cons_ne_nil, not_false_eq_true]
    split <;> rfl

theorem exists_withoutReturn_append (kept : line.getLast? ≠ some '\r') (more : List Char) :
    ∃ rest, withoutReturn (line ++ more) = line ++ rest := by
  rcases List.eq_nil_or_concat more with rfl | ⟨front, last, rfl⟩
  · exact ⟨[], by rw [List.append_nil, withoutReturn, if_neg kept]⟩
  · rw [List.concat_eq_append, withoutReturn]
    split
    · exact ⟨front, by rw [← List.append_assoc, List.dropLast_concat]⟩
    · exact ⟨front ++ [last], rfl⟩

theorem length_le_withoutReturn (line : List Char) :
    line.length ≤ (withoutReturn line).length + 1 := by
  rw [withoutReturn]
  split
  · rw [List.length_dropLast]
    omega
  · omega

end Returns

section Lines

variable {line text above below : List Char}

theorem lines_of_inLine (nonempty : line ≠ []) (inLine : '\n' ∉ line) : lines line = [line] := by
  induction line with
  | nil => exact absurd rfl nonempty
  | cons c line ih =>
    rw [List.mem_cons, not_or] at inLine
    have go : lines (c :: line) = prependToLine c (lines line) := by
      rw [lines]
      · rintro rest - rfl
        exact inLine.2 List.mem_cons_self
      · exact Ne.symm inLine.1
    cases line with
    | nil => rw [go, lines, prependToLine]
    | cons d line => rw [go, ih (List.cons_ne_nil _ _) inLine.2, prependToLine]

theorem lines_append_lineFeed (inLine : '\n' ∉ line) (text : List Char) :
    lines (line ++ '\n' :: text) = withoutReturn line :: lines text := by
  induction line with
  | nil => rfl
  | cons c line ih =>
    rw [List.mem_cons, not_or] at inLine
    by_cases returns : c = '\r' ∧ line = []
    · obtain ⟨rfl, rfl⟩ := returns
      rfl
    · rw [withoutReturn_cons (not_and.1 returns), List.cons_append, lines, ih inLine.2,
        prependToLine]
      · rintro rest rfl same
        cases line with
        | nil => exact returns ⟨rfl, rfl⟩
        | cons d line => exact inLine.2 ((List.cons.inj same).1 ▸ List.mem_cons_self)
      · exact Ne.symm inLine.1

/-- Whether a text is empty or ends with a line feed, so that a line may start behind it. -/
def EndsLine (text : List Char) : Prop := text = [] ∨ text.getLast? = some '\n'

theorem EndsLine.lastLine_eq (ends : EndsLine text) : lastLine text = [] := by
  rw [lastLine, List.rtakeWhile_eq_nil_iff]
  intro nonempty
  rcases ends with nothing | feed
  · exact absurd nothing nonempty
  · rw [List.getLast?_eq_some_getLast nonempty] at feed
    simpa using feed

theorem drop_lines_append (ends : EndsLine above) (text : List Char) :
    (lines (above ++ text)).drop (above.count '\n') = lines text := by
  -- The first line feed ends a line, and what stands behind it is shorter.
  induction hlength : above.length using Nat.strongRecOn generalizing above with
  | ind length ih =>
    subst hlength
    rcases ends with rfl | ends
    · rfl
    · obtain ⟨line, rest, rfl, inLine, stops⟩ := exists_line above
      cases rest with
      | nil =>
        rw [List.append_nil] at ends
        exact absurd (List.mem_of_getLast? ends) inLine
      | cons c rest =>
        obtain rfl : c = '\n' := stops c rfl
        have ends' : EndsLine rest := by
          cases rest with
          | nil => exact .inl rfl
          | cons d rest =>
            refine .inr ?_
            rwa [List.getLast?_append_cons, List.getLast?_cons_cons] at ends
        have behind := ih rest.length (by simp; omega) ends' rfl
        rw [List.append_assoc, List.cons_append, lines_append_lineFeed inLine, List.count_append,
          List.count_eq_zero_of_not_mem inLine, List.count_cons_self, Nat.zero_add,
          List.drop_succ_cons, behind]

/-- The line of a text that holds an offset: it stands between two line feeds, or reaches to the
start or the end of the text. -/
structure LineAt (text : List Char) (offset : Nat) (above line below : List Char) : Prop where
  whole : text = above ++ (line ++ below)
  opens : EndsLine above
  inLine : '\n' ∉ line
  closes : ∀ c ∈ below.head?, c = '\n'
  starts : byteLength above ≤ offset
  stops : offset ≤ byteLength above + byteLength line

/-- What is shown of a line: no carriage return directly before the line feed that ends it. -/
def shownLine (line below : List Char) : List Char :=
  if below = [] then line else withoutReturn line

/-- A text has the line that holds an offset at the number of the line feeds above it, unless there
is nothing from there on. -/
theorem LineAt.getElem?_lines {offset : Nat} (h : LineAt text offset above line below) :
    (lines text)[above.count '\n']? =
      if line ++ below = [] then none else some (shownLine line below) := by
  rw [h.whole, ← List.head?_drop, drop_lines_append h.opens]
  cases below with
  | nil =>
    rw [List.append_nil]
    by_cases nothing : line = []
    · rw [if_pos nothing, nothing]
      rfl
    · rw [if_neg nothing, lines_of_inLine nothing h.inLine]
      rfl
  | cons c below =>
    obtain rfl : c = '\n' := h.closes c rfl
    rw [lines_append_lineFeed h.inLine, if_neg (by simp)]
    rfl

theorem exists_lineAt (before behind : List Char) : ∃ above tail below,
    before = above ++ lastLine before ∧ behind = tail ++ below ∧
      above.count '\n' = before.count '\n' ∧
      LineAt (before ++ behind) (byteLength before) above (lastLine before ++ tail) below := by
  obtain ⟨tail, below, rfl, inTail, stops⟩ := exists_line behind
  have cut : before.rdropWhile (· != '\n') ++ lastLine before = before :=
    List.rdropWhile_append_rtakeWhile
  have inFront : '\n' ∉ lastLine before := by
    intro member
    exact absurd (List.mem_rtakeWhile_imp member) (by decide)
  have opens : EndsLine (before.rdropWhile (· != '\n')) := by
    by_cases nothing : before.rdropWhile (· != '\n') = []
    · exact .inl nothing
    · have feed := List.rdropWhile_last_not _ _ nothing
      refine .inr ?_
      rw [List.getLast?_eq_some_getLast nothing]
      simpa using feed
  have counts := congrArg (List.count '\n') cut
  have bytes := congrArg byteLength cut
  rw [List.count_append, List.count_eq_zero_of_not_mem inFront, Nat.add_zero] at counts
  rw [byteLength_append] at bytes
  refine ⟨_, tail, below, cut.symm, rfl, counts, ?_, opens, ?_, stops, ?_, ?_⟩
  · conv_lhs => rw [← cut]
    simp only [List.append_assoc]
  · exact List.not_mem_append inFront inTail
  · omega
  · rw [byteLength_append]
    omega

end Lines

end SableSyntax
