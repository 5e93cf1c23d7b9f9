/- SableSyntax/Text/Lines
   digest: The lines of a text, without the marks that end them. -/

set_option autoImplicit false
set_option relaxedAutoImplicit false

namespace SableSyntax

def prependToLine (c : Char) : List (List Char) → List (List Char)
  | [] => [[c]]
  | line :: lines => (c :: line) :: lines

/-- A line ends at a line feed, which takes one carriage return directly before it along.
The end of the text ends a line too, unless a line feed has just done so. -/
def lines : List Char → List (List Char)
  | [] => []
  | '\r' :: '\n' :: text => [] :: lines text
  | '\n' :: text => [] :: lines text
  | c :: text => prependToLine c (lines text)

theorem exists_line (text : List Char) :
    ∃ body rest, text = body ++ rest ∧ '\n' ∉ body ∧ ∀ c ∈ rest.head?, c = '\n' := by
  induction text with
  | nil => exact ⟨[], [], rfl, by simp, by simp⟩
  | cons c text ih =>
    by_cases ends : c = '\n'
    · exact ⟨[], c :: text, rfl, by simp, by simpa using ends⟩
    · obtain ⟨body, rest, rfl, inLine, stops⟩ := ih
      exact ⟨c :: body, rest, rfl, by simpa using ⟨Ne.symm ends, inLine⟩, stops⟩

end SableSyntax
