/- SableSyntax/Proofs/Lexing/Joins
   digest: A text with another one on the lines below it gives the tokens of the one and then what
   the other gives, moved down. -/

import SableSyntax.Proofs.Syntax.Moves

set_option autoImplicit false
set_option relaxedAutoImplicit false

namespace SableSyntax

section Moves

-- A place goes over to where it is moved, and does so also behind a character.
variable {move : Location → Location}
  (keeps : ∀ place c, move (place.advance c) = (move place).advance c)

def Cursor.moved (move : Location → Location) (cursor : Cursor) : Cursor :=
  ⟨move cursor.location, cursor.rest⟩

def GapMode.moved (move : Location → Location) : GapMode → GapMode
  | .between => .between
  | .lineComment => .lineComment
  | .blockComment opening => .blockComment (move opening)

def Cursor.movedResult {α : Type} (move : Location → Location) (place : α → α) :
    EStateM.Result SyntaxError Cursor α → EStateM.Result SyntaxError Cursor α
  | .ok value reached => .ok (place value) (reached.moved move)
  | .error error reached => .error (error.moved move) (reached.moved move)

include keeps

theorem after_moved (place : Location) (text : List Char) :
    move (place.after text) = (move place).after text := by
  induction text generalizing place with
  | nil => rfl
  | cons c text ih => rw [Location.after_cons, ih, keeps, Location.after_cons]

theorem skipGap_moved (mode : GapMode) (place : Location) (text : List Char) :
    skipGap (mode.moved move) (move place) text =
      Cursor.movedResult move id (skipGap mode place text) := by
  fun_induction skipGap mode place text with
  | case1 | case6 | case8 => rfl
  | case2 place rest ih | case3 place rest ih =>
    rw [← ih, after_moved keeps]
    rfl
  | case4 place c rest notLine notBlock blank ih =>
    rw [← ih, keeps]
    simp only [GapMode.moved]
    rw [skipGap, if_pos blank]
    · exact notLine
    · exact notBlock
  | case5 place c rest notLine notBlock notBlank =>
    simp only [GapMode.moved]
    rw [skipGap, if_neg notBlank]
    · rfl
    · exact notLine
    · exact notBlock
  | case7 place c rest ih =>
    rw [← ih, keeps]
    simp only [GapMode.moved, skipGap]
    split <;> rfl
  | case9 opening place rest ih =>
    rw [← ih, after_moved keeps]
    rfl
  | case10 opening place c rest goesOn ih =>
    rw [← ih, keeps]
    simp only [GapMode.moved]
    rw [skipGap]
    exact goesOn

theorem Cursor.lexeme_moved (cursor : Cursor) :
    (cursor.moved move).lexeme = movedResult move (Token.moved move) cursor.lexeme := by
  simp only [lexeme, Cursor.moved]
  split
  · simp [movedResult, Token.moved, Span.moved, Cursor.moved, after_moved keeps]
  · simp [movedResult, SyntaxError.moved, Span.moved, Cursor.moved, keeps]

theorem Cursor.next_moved (cursor : Cursor) :
    (cursor.moved move).next = movedResult move (Token.moved move) cursor.next := by
  have skipped := skipGap_moved keeps .between cursor.location cursor.rest
  simp only [next, Cursor.moved, GapMode.moved] at skipped ⊢
  rw [skipped]
  cases skipGap .between cursor.location cursor.rest with
  | ok _ reached => exact lexeme_moved keeps reached
  | error error reached => rfl

theorem Cursor.results_moved (cursor : Cursor) :
    (cursor.moved move).results = cursor.results.map (LexResult.moved move) := by
  induction cursor using Cursor.results.induct with
  | case1 cursor error reached stops ih =>
    have next := next_moved keeps cursor
    rw [stops] at next
    rw [results_of_error stops, results_of_error next, ih]
    rfl
  | case2 cursor token reached found atEnd =>
    have next := next_moved keeps cursor
    rw [found] at next
    rw [results_of_end found atEnd, results_of_end next atEnd]
    rfl
  | case3 cursor token reached found notEnd ih =>
    have next := next_moved keeps cursor
    rw [found] at next
    rw [results_of_token found notEnd, results_of_token next notEnd, ih]
    rfl

end Moves

section LineFeeds

variable {more : List Char}

theorem Gap.before_feed {gap rest : List Char} (h : Gap gap rest) :
    Gap gap (rest ++ '\n' :: more) := by
  induction h with
  | empty => exact .empty
  | blank blank _ ih => exact .blank blank ih
  | @line body gap rest inLine ends _ ih =>
    refine .line inLine ?_ ih
    rw [← List.append_assoc, List.head?_append]
    cases head : (gap ++ rest).head? with
    | none => simp
    | some c => simpa [head] using ends
  | block first _ ih => exact .block first ih

theorem Ends.before_feed {kind : TokenKind} {rest : List Char} (h : Ends kind rest) :
    Ends kind (rest ++ '\n' :: more) := by
  cases rest with
  | nil => cases kind <;> simp [Ends] <;> decide
  | cons c rest =>
    cases kind with
    | integer =>
      refine ⟨h.1, fun d behind same => ?_⟩
      obtain ⟨rfl, same⟩ : c = '.' ∧ rest ++ '\n' :: more = d :: behind := by simpa using same
      cases rest with
      | nil =>
        obtain ⟨rfl, -⟩ : '\n' = d ∧ more = behind := by simpa using same
        decide
      | cons e rest =>
        obtain ⟨rfl, -⟩ : e = d ∧ rest ++ '\n' :: more = behind := by simpa using same
        exact h.2 e rest rfl
    | _ => exact h

theorem Splits.before_feed {rest text last : List Char} {pieces : List Piece}
    (h : Splits rest text pieces last) : Splits (rest ++ '\n' :: more) text pieces last := by
  induction h with
  | last isGap => exact .last isGap.before_feed
  | piece isGap spelled ends _ ih =>
    refine .piece ?_ spelled ?_ ih
    · simpa using isGap.before_feed
    · simpa using ends.before_feed

end LineFeeds

section Joins

variable {above : String} {tokens : List Token} {stop : Token}

theorem results_below (lexed : tokenize above = .ok (tokens ++ [stop])) (text : String) :
    (Cursor.ofText (above ++ "\n" ++ text)).results = tokens.map .ok ++
      (Cursor.ofText text).results.map (LexResult.moved (.below above.toList)) := by
  rcases splits_cases above.toList with ⟨pieces, last, splits⟩ | faulty
  · have same : tokens ++ [stop] =
        Piece.tokens .start pieces ++ [.endAt (Location.start.after above.toList)] :=
      Except.ok.inj (lexed.symm.trans (tokenize_of_splits splits))
    obtain ⟨rfl, -⟩ := List.append_inj' same rfl
    have front := Cursor.results_of_splits (@Splits.before_feed text.toList _ _ _ _ splits) .start
    have feed : Gap ['\n'] text.toList := .blank (by decide) .empty
    have whole : (above ++ "\n" ++ text).toList = above.toList ++ ([] ++ '\n' :: text.toList) := by
      simp
    have down : (⟨(Location.start.after above.toList).after ['\n'], text.toList⟩ : Cursor) =
        (Cursor.ofText text).moved (.below above.toList) := by
      rw [Cursor.moved, Cursor.ofText, Location.below_start, Location.after_append]
    have behind : Cursor.results ⟨Location.start.after above.toList, ['\n'] ++ text.toList⟩ =
        Cursor.results ((Cursor.ofText text).moved (.below above.toList)) := by
      rw [← down, Cursor.results, Cursor.next_of_gap feed, ← Cursor.results]
    rw [Cursor.ofText, whole, front]
    rw [← Cursor.results_moved (Location.below_advance above.toList), ← behind]
    rfl
  · obtain ⟨front, rest, pieces, last, error, whole, splits, faulty⟩ := faulty
    cases lexed.symm.trans (tokenize_of_splits_fault whole splits faulty)

theorem tokenize_below (lexed : tokenize above = .ok (tokens ++ [stop])) (text : String) :
    tokenize (above ++ "\n" ++ text) = match tokenize text with
      | .ok more => .ok (tokens ++ more.map (Token.moved (.below above.toList)))
      | .error error => .error (error.moved (.below above.toList)) := by
  have results := results_below lexed text
  cases outcome : tokenize text with
  | ok more =>
    rw [tokenize_eq_ok_iff.1 outcome, map_moved_ok, ← List.map_append] at results
    exact tokenize_eq_ok_iff.2 results
  | error error =>
    obtain ⟨front, rest, same⟩ := tokenize_eq_error_iff.1 outcome
    rw [same, List.map_append, map_moved_ok, ← List.append_assoc, ← List.map_append] at results
    exact tokenize_eq_error results

end Joins

end SableSyntax
