/- SableSyntax/Proofs/Text/Counters
   digest: Counters of 32 bits tell true places as long as they do not run over. -/

import SableSyntax.Proofs.Text.Places
import SableSyntax.Text.Counter

set_option autoImplicit false
set_option relaxedAutoImplicit false

namespace SableSyntax

theorem Overflow.next?_of_lt (overflow : Overflow) {count : Nat} (h : count + 1 < UInt32.size) :
    overflow.next? count = some (count + 1) := by
  cases overflow with
  | stops => exact if_pos h
  | wraps => exact congrArg some (Nat.mod_eq_of_lt h)

theorem length_le_byteLength (text : List Char) : text.length ≤ byteLength text := by
  induction text with
  | nil => exact Nat.le_refl _
  | cons c text ih =>
    have := c.utf8Size_pos
    rw [List.length_cons, byteLength_cons]
    omega

theorem length_lastLine_le (text : List Char) : (lastLine text).length ≤ text.length :=
  (List.rtakeWhile_suffix _ _).length_le

namespace Location

variable {text : List Char} {place counted : Location}

theorem track?_append_singleton (overflow : Overflow) (text : List Char) (c : Char) :
    track? overflow (text ++ [c]) = track? overflow text >>= (advance? overflow · c) := by
  simp [track?, List.foldlM_append]

theorem eq_after_of_track?_stops (counts : track? .stops text = some counted) :
    counted = start.after text := by
  induction text using List.reverseRecOn generalizing counted with
  | nil => exact (Option.some.inj counts).symm
  | append_singleton text c ih =>
    rw [track?_append_singleton] at counts
    obtain ⟨before, countsBefore, next⟩ := Option.bind_eq_some_iff.1 counts
    rw [after_append, ← ih countsBefore, after_cons, after_nil]
    simp only [advance?, Overflow.next?] at next
    rw [advance]
    split at next <;>
      · next newline =>
        obtain ⟨_, fits, rfl⟩ := Option.map_eq_some_iff.1 next
        obtain ⟨-, same⟩ := Option.ite_none_right_eq_some.1 fits
        cases same
        simp [newline]

theorem track?_of_small (overflow : Overflow) (small : byteLength text + 1 < UInt32.size) :
    track? overflow text = some (start.after text) := by
  induction text using List.reverseRecOn with
  | nil => rfl
  | append_singleton text c ih =>
    have long := length_le_byteLength text
    have line : text.count '\n' ≤ text.length := List.count_le_length
    have column := length_lastLine_le text
    have size := c.utf8Size_pos
    rw [byteLength_append, byteLength_cons, byteLength_nil] at small
    have nextLine := overflow.next?_of_lt (show 1 + text.count '\n' + 1 < _ by omega)
    have nextColumn := overflow.next?_of_lt (show 1 + (lastLine text).length + 1 < _ by omega)
    rw [track?_append_singleton, ih (by omega), Option.bind_eq_bind, Option.bind_some,
      after_append, after_cons, after_nil, start_after, advance, advance?]
    split
    · rw [nextLine, Option.map_some]
    · rw [nextColumn, Option.map_some]

theorem cutBytes?_of_isIn (h : place.IsIn text) :
    ∃ before behind, text = before ++ behind ∧ cutBytes? place.offset text = some (before, behind) ∧
      place = start.after before := by
  obtain ⟨before, behind, whole, rfl⟩ := isIn_iff.1 h
  refine ⟨before, behind, whole, cutBytes?_eq_some_iff.2 ⟨whole, ?_⟩, rfl⟩
  rw [start_after]

/-- A place of the text that is counted at all is then the place itself. -/
theorem IsIn.eq_of_tracked?_stops (h : place.IsIn text)
    (counts : place.tracked? .stops text = some counted) : counted = place := by
  obtain ⟨before, behind, rfl, cut, same⟩ := cutBytes?_of_isIn h
  rw [tracked?, cut, Option.bind_eq_bind, Option.bind_some] at counts
  exact (eq_after_of_track?_stops counts).trans same.symm

theorem IsIn.tracked?_of_small (h : place.IsIn text) (overflow : Overflow)
    (small : byteLength text + 1 < UInt32.size) : place.tracked? overflow text = some place := by
  obtain ⟨before, behind, rfl, cut, same⟩ := cutBytes?_of_isIn h
  rw [byteLength_append] at small
  have counts : track? overflow before = some (start.after before) :=
    track?_of_small overflow (by omega)
  simp only [tracked?, cut, Option.bind_eq_bind, Option.bind_some, counts, ← same]

end Location

variable {text : List Char}

theorem Span.IsIn.eq_of_tracked?_stops {span counted : Span} (h : span.IsIn text)
    (counts : span.tracked? .stops text = some counted) : counted = span := by
  obtain ⟨start, countsStart, counts⟩ := Option.bind_eq_some_iff.1 counts
  obtain ⟨stop, countsStop, same⟩ := Option.bind_eq_some_iff.1 counts
  cases same
  rw [h.start.eq_of_tracked?_stops countsStart, h.stop.eq_of_tracked?_stops countsStop]

theorem SyntaxError.eq_of_tracked?_stops {error counted : SyntaxError} (h : error.span.IsIn text)
    (counts : error.tracked? .stops text = some counted) : counted = error := by
  obtain ⟨span, countsSpan, same⟩ := Option.bind_eq_some_iff.1 counts
  cases same
  rw [h.eq_of_tracked?_stops countsSpan]

theorem SyntaxError.tracked?_of_small {error : SyntaxError} (h : error.span.IsIn text)
    (overflow : Overflow) (small : byteLength text + 1 < UInt32.size) :
    error.tracked? overflow text = some error := by
  have start := h.start.tracked?_of_small overflow small
  have stop := h.stop.tracked?_of_small overflow small
  simp [SyntaxError.tracked?, Span.tracked?, start, stop]

end SableSyntax
