/- SableSyntax/Proofs/Lexing/Gaps
   digest: What stands between tokens: blanks, comments to the end of a line, closed comments. -/

import SableSyntax.Lexing.Cursor
import SableSyntax.Text.Lines

set_option autoImplicit false
set_option relaxedAutoImplicit false

namespace SableSyntax

/-- The texts without a token that may stand in front of a given text: blanks, comments that run to
the next line feed or to the end, and comments that end with the first closing mark behind their
opening mark. -/
inductive Gap : List Char → List Char → Prop
  | empty {rest : List Char} : Gap [] rest
  | blank {c : Char} {gap rest : List Char} (blank : isBlank c) (more : Gap gap rest) :
    Gap (c :: gap) rest
  | line {body gap rest : List Char} (inLine : '\n' ∉ body)
    (ends : ∀ c ∈ (gap ++ rest).head?, c = '\n') (more : Gap gap rest) :
    Gap ('/' :: '/' :: (body ++ gap)) rest
  | block {body gap rest : List Char} (first : ¬ ['*', '/'] <:+: body) (more : Gap gap rest) :
    Gap ('/' :: '*' :: (body ++ '*' :: '/' :: gap)) rest

inductive OpensGap : List Char → Prop
  | blank {c : Char} {rest : List Char} (blank : isBlank c) : OpensGap (c :: rest)
  | line (rest : List Char) : OpensGap ('/' :: '/' :: rest)
  | block (rest : List Char) : OpensGap ('/' :: '*' :: rest)

section Comments

theorem closing_cases (text : List Char) :
    (∃ body rest, text = body ++ '*' :: '/' :: rest ∧ ¬ ['*', '/'] <:+: body) ∨
      ¬ ['*', '/'] <:+: text := by
  induction text with
  | nil => exact .inr (by simp)
  | cons c text ih =>
    by_cases closes : ['*', '/'] <+: c :: text
    · obtain ⟨rest, same⟩ := closes
      exact .inl ⟨[], rest, same.symm, by simp⟩
    · rcases ih with ⟨body, rest, rfl, first⟩ | unclosed
      · refine .inl ⟨c :: body, rest, rfl, fun inside => ?_⟩
        rcases List.infix_cons_iff.1 inside with front | inside
        · exact closes (front.trans (List.prefix_append (c :: body) _))
        · exact first inside
      · refine .inr fun inside => ?_
        exact (List.infix_cons_iff.1 inside).elim closes unclosed

private theorem skipGap_lineComment {body : List Char} (inLine : '\n' ∉ body) (place : Location)
    (rest : List Char) :
    skipGap .lineComment place (body ++ rest) = skipGap .lineComment (place.after body) rest := by
  induction body generalizing place with
  | nil => rfl
  | cons c body ih =>
    simp only [List.mem_cons, not_or] at inLine
    rw [List.cons_append, skipGap, if_neg (Ne.symm inLine.1), ih inLine.2, Location.after_cons]

private theorem skipGap_lineComment_of_ends {rest : List Char}
    (ends : ∀ c ∈ rest.head?, c = '\n') (place : Location) :
    skipGap .lineComment place rest = skipGap .between place rest := by
  cases rest with
  | nil => rfl
  | cons c rest =>
    obtain rfl : c = '\n' := ends c rfl
    rfl

private theorem skipGap_blockComment_cons {c : Char} {rest : List Char}
    (goesOn : ¬ ['*', '/'] <+: c :: rest) (opening place : Location) :
    skipGap (.blockComment opening) place (c :: rest) =
      skipGap (.blockComment opening) (place.advance c) rest := by
  rw [skipGap]
  intro more same same'
  subst same same'
  exact goesOn ⟨more, rfl⟩

private theorem skipGap_blockComment {body : List Char} (first : ¬ ['*', '/'] <:+: body)
    (opening place : Location) (rest : List Char) :
    skipGap (.blockComment opening) place (body ++ '*' :: '/' :: rest) =
      skipGap .between ((place.after body).after ['*', '/']) rest := by
  induction body generalizing place with
  | nil => rfl
  | cons c body ih =>
    rw [List.infix_cons_iff, not_or] at first
    have goesOn : ¬ ['*', '/'] <+: c :: (body ++ '*' :: '/' :: rest) := by
      -- Only the first mark of the closing ones may be the second of two characters here.
      cases body with
      | nil => simp
      | cons d body => simpa using first.1
    rw [List.cons_append, skipGap_blockComment_cons goesOn, ih first.2, place.after_cons c body]

private theorem skipGap_blockComment_of_unclosed {body : List Char}
    (unclosed : ¬ ['*', '/'] <:+: body) (opening place : Location) :
    skipGap (.blockComment opening) place body =
      .error ⟨.unterminatedComment, ⟨opening, place.after body⟩⟩ ⟨place.after body, []⟩ := by
  induction body generalizing place with
  | nil => rfl
  | cons c body ih =>
    rw [List.infix_cons_iff, not_or] at unclosed
    rw [skipGap_blockComment_cons unclosed.1, ih unclosed.2, Location.after_cons]

end Comments

section Skipping

theorem skipGap_of_ne_slash {c : Char} (other : c ≠ '/') (place : Location) (rest : List Char) :
    skipGap .between place (c :: rest) =
      if isBlank c then skipGap .between (place.advance c) rest
      else .ok () ⟨place, c :: rest⟩ := by
  rw [skipGap]
  all_goals
    intro _ same
    exact absurd same other

theorem ne_slash_of_isBlank {c : Char} (blank : isBlank c) : c ≠ '/' := by
  intro same
  subst same
  exact absurd blank (by decide)

theorem skipGap_of_gap {gap rest : List Char} (h : Gap gap rest) (place : Location) :
    skipGap .between place (gap ++ rest) = skipGap .between (place.after gap) rest := by
  induction h generalizing place with
  | empty => rfl
  | @blank c gap rest blank more ih =>
    rw [List.cons_append, skipGap_of_ne_slash (ne_slash_of_isBlank blank), if_pos blank, ih,
      Location.after_cons]
  | @line body gap rest inLine ends more ih =>
    simp only [List.cons_append, List.append_assoc]
    rw [skipGap, skipGap_lineComment inLine, skipGap_lineComment_of_ends ends, ih]
    simp only [Location.after_cons, Location.after_nil, Location.after_append]
  | @block body gap rest first more ih =>
    simp only [List.cons_append, List.append_assoc]
    rw [skipGap, skipGap_blockComment first, ih]
    simp only [Location.after_cons, Location.after_nil, Location.after_append]

theorem skipGap_of_not_opensGap {rest : List Char} (h : ¬ OpensGap rest) (place : Location) :
    skipGap .between place rest = .ok () ⟨place, rest⟩ := by
  match rest with
  | [] => rfl
  | c :: rest =>
    have notBlank : ¬ isBlank c := fun blank => h (.blank blank)
    rw [skipGap]
    · rw [if_neg notBlank]
    · intro more same same'
      subst same same'
      exact h (.line more)
    · intro more same same'
      subst same same'
      exact h (.block more)

theorem skipGap_of_unclosed {body : List Char} (unclosed : ¬ ['*', '/'] <:+: body)
    (place : Location) :
    skipGap .between place ('/' :: '*' :: body) =
      .error ⟨.unterminatedComment, ⟨place, place.after ('/' :: '*' :: body)⟩⟩
        ⟨place.after ('/' :: '*' :: body), []⟩ := by
  rw [skipGap, skipGap_blockComment_of_unclosed unclosed]
  rfl

end Skipping

theorem Cursor.next_of_gap {gap rest : List Char} (h : Gap gap rest) (place : Location) :
    Cursor.next ⟨place, gap ++ rest⟩ = Cursor.next ⟨place.after gap, rest⟩ := by
  simp only [Cursor.next, skipGap_of_gap h]

theorem exists_gap (text : List Char) : ∃ gap rest, text = gap ++ rest ∧ Gap gap rest ∧
    (¬ OpensGap rest ∨ ∃ body, rest = '/' :: '*' :: body ∧ ¬ ['*', '/'] <:+: body) := by
  -- What is left behind a blank or a comment is shorter.
  induction hlength : text.length using Nat.strongRecOn generalizing text with
  | ind length ih =>
    subst hlength
    by_cases opens : OpensGap text
    · cases opens with
      | @blank c text blank =>
        obtain ⟨gap, rest, rfl, more, stops⟩ := ih text.length (by simp) text rfl
        exact ⟨c :: gap, rest, rfl, .blank blank more, stops⟩
      | line text =>
        obtain ⟨body, text, rfl, inLine, ends⟩ := exists_line text
        obtain ⟨gap, rest, rfl, more, stops⟩ := ih text.length (by simp; omega) text rfl
        exact ⟨_, rest, by simp, .line inLine ends more, stops⟩
      | block text =>
        rcases closing_cases text with ⟨body, text, rfl, first⟩ | unclosed
        · obtain ⟨gap, rest, rfl, more, stops⟩ := ih text.length (by simp; omega) text rfl
          exact ⟨_, rest, by simp, .block first more, stops⟩
        · exact ⟨[], _, rfl, .empty, .inr ⟨text, rfl, unclosed⟩⟩
    · exact ⟨[], text, rfl, .empty, .inl opens⟩

end SableSyntax
