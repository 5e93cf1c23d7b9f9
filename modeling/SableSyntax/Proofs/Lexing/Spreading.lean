/- SableSyntax/Proofs/Lexing/Spreading
   digest: Tokens written with blanks and comments between them are read back where they stand. -/

import SableSyntax.Proofs.Lexing.Splitting
import SableSyntax.Proofs.Text.Places

set_option autoImplicit false
set_option relaxedAutoImplicit false

namespace SableSyntax

/-- What may stand between tokens: a blank, a comment up to its line feed, or a comment up to the
first closing mark behind its opening mark. -/
inductive Spacer
  | blank (c : Char) (isBlank : isBlank c)
  | line (body : List Char) (inLine : '\n' ∉ body)
  | block (body : List Char) (first : ¬ ['*', '/'] <:+: body)

def Spacer.text : Spacer → List Char
  | blank c _ => [c]
  | line body _ => '/' :: '/' :: (body ++ ['\n'])
  | block body _ => '/' :: '*' :: (body ++ ['*', '/'])

def spacing (spacers : List Spacer) : List Char := spacers.flatMap Spacer.text

structure SpacedLexeme where
  lexeme : Lexeme
  behind : List Spacer

def spread (entries : List SpacedLexeme) : List Char :=
  entries.flatMap fun entry => entry.lexeme.text.toList ++ spacing entry.behind

def spreadTokens (before : List Char) (entries : List SpacedLexeme) : List Token :=
  entries.mapIdx fun index entry =>
    entry.lexeme.placed (Location.start.after (before ++ spread (entries.take index)))

/-- Entries that can be told apart: every lexeme is written as its kind is and has a blank directly
behind it, but for the last one, which may have nothing behind it. The text may end in a comment
that no line feed closes. -/
structure Distinct (entries : List SpacedLexeme) (ending : List Char) : Prop where
  spelled : ∀ entry ∈ entries, entry.lexeme.WellSpelled
  between : ∀ entry ∈ entries.dropLast, (spacing entry.behind).head?.any isBlank
  last : ∀ entry ∈ entries.getLast?, (spacing entry.behind ++ ending).head?.all isBlank
  ending : ending = [] ∨ ∃ body, ending = '/' :: '/' :: body ∧ '\n' ∉ body

section Spacing

theorem spacing_cons (spacer : Spacer) (spacers : List Spacer) :
    spacing (spacer :: spacers) = spacer.text ++ spacing spacers := List.flatMap_cons

theorem gap_spacing {gap rest : List Char} (more : Gap gap rest) (spacers : List Spacer) :
    Gap (spacing spacers ++ gap) rest := by
  induction spacers with
  | nil => exact more
  | cons spacer spacers ih =>
    rw [spacing_cons, List.append_assoc]
    cases spacer with
    | blank c isBlank => exact .blank isBlank ih
    | line body inLine =>
      -- The line feed that the comment runs up to is a blank behind it.
      have feed : Gap ('\n' :: (spacing spacers ++ gap)) rest := .blank (by decide) ih
      have comment := Gap.line inLine (by simp) feed
      simpa [Spacer.text] using comment
    | block body first =>
      have comment := Gap.block first ih
      simpa [Spacer.text] using comment

theorem gap_of_ending {ending : List Char}
    (h : ending = [] ∨ ∃ body, ending = '/' :: '/' :: body ∧ '\n' ∉ body) : Gap ending [] := by
  rcases h with rfl | ⟨body, rfl, inLine⟩
  · exact .empty
  · have nothing : Gap [] [] := .empty
    simpa using Gap.line inLine (by simp) nothing

theorem ends_of_isBlank (kind : TokenKind) {rest : List Char}
    (blank : rest.head?.all isBlank) : Ends kind rest := by
  have blank : ∀ c ∈ rest.head?, isBlank c := Option.all_eq_true _ _ |>.1 blank
  have noWord : ∀ c ∈ rest.head?, ¬ isWordChar c := fun c head =>
    not_isWordChar_of_isBlank (blank c head)
  have noDigit : ∀ c ∈ rest.head?, ¬ c.isDigit := fun c head digit =>
    noWord c head (by simp [isWordChar, Char.isAlphanum, digit])
  have other (mark : Char) (h : isBlank mark = false) : ∀ c ∈ rest.head?, c ≠ mark := by
    rintro c head rfl
    exact absurd (blank c head) (by simp [h])
  cases kind with
  | identifier | func | var => exact noWord
  | float => exact noDigit
  | integer =>
    refine ⟨noDigit, fun c more same => ?_⟩
    subst same
    exact absurd rfl (other '.' (by decide) '.' rfl)
  | slash => exact fun c head => ⟨other '/' (by decide) c head, other '*' (by decide) c head⟩
  | _ => trivial

end Spacing

section Spreading

variable {entries : List SpacedLexeme} {entry : SpacedLexeme} {ending : List Char}

theorem spread_cons (entry : SpacedLexeme) (entries : List SpacedLexeme) :
    spread (entry :: entries) =
      entry.lexeme.text.toList ++ (spacing entry.behind ++ spread entries) := by
  rw [spread, List.flatMap_cons, List.append_assoc, ← spread]

theorem Distinct.tail (h : Distinct (entry :: entries) ending) : Distinct entries ending := by
  refine ⟨fun other member => h.spelled other (List.mem_cons_of_mem _ member), fun other member =>
    ?_, fun other member => ?_, h.ending⟩
  · cases entries with
    | nil => cases member
    | cons next more => exact h.between other (List.mem_cons_of_mem _ member)
  · cases entries with
    | nil => cases member
    | cons next more => exact h.last other (by simpa using member)

theorem Distinct.blank_behind (h : Distinct (entry :: entries) ending) :
    (spacing entry.behind ++ (spread entries ++ ending)).head?.all isBlank := by
  cases entries with
  | nil => simpa [spread] using h.last entry (by simp)
  | cons next more =>
    have blank := h.between entry (by simp)
    cases same : spacing entry.behind with
    | nil => simp [same] at blank
    | cons c rest => simpa [same] using blank

theorem spreadTokens_cons (before : List Char) (entry : SpacedLexeme)
    (entries : List SpacedLexeme) :
    spreadTokens before (entry :: entries) =
      entry.lexeme.placed (Location.start.after before) ::
        spreadTokens (before ++ (entry.lexeme.text.toList ++ spacing entry.behind)) entries := by
  rw [spreadTokens, List.mapIdx_cons, spreadTokens]
  congr 1
  · simp [spread]
  · refine congrArg (List.mapIdx · entries) ?_
    funext index other
    rw [List.take_succ_cons, spread_cons]
    simp only [List.append_assoc]

theorem Distinct.splits (h : Distinct entries ending) (gap : List Char)
    (isGap : ∀ more rest, Gap more rest → Gap (gap ++ more) rest) (before : List Char) :
    ∃ pieces last, Splits [] (gap ++ (spread entries ++ ending)) pieces last ∧
      Piece.tokens (Location.start.after before) pieces = spreadTokens (before ++ gap) entries := by
  induction entries generalizing gap before with
  | nil =>
    have whole : Gap (gap ++ ending) [] := isGap _ _ (gap_of_ending h.ending)
    exact ⟨[], gap ++ ending, by simpa [spread] using Splits.last whole, rfl⟩
  | cons entry entries ih =>
    -- The spacers behind the lexeme are the gap in front of the next one.
    obtain ⟨pieces, last, split, tokens⟩ := ih h.tail (spacing entry.behind)
      (fun _ _ more => gap_spacing more _) (before ++ gap ++ entry.lexeme.text.toList)
    have ends := ends_of_isBlank entry.lexeme.kind h.blank_behind
    have spelled := h.spelled entry List.mem_cons_self
    have front : Gap gap (entry.lexeme.text.toList ++
        (spacing entry.behind ++ (spread entries ++ ending) ++ [])) := by
      simpa using isGap [] _ .empty
    refine ⟨⟨gap, entry.lexeme⟩ :: pieces, last, ?_, ?_⟩
    · have whole := Splits.piece front spelled (by simpa using ends) split
      simpa [spread_cons] using whole
    · rw [spreadTokens_cons, Piece.tokens, ← Location.after_append, ← Location.after_append, tokens]
      simp only [List.append_assoc]

/-- Writing tokens with any blanks and comments between them and reading the text gives them back.
If every lexeme is written as its kind is, with a blank directly behind it wherever another lexeme
follows, the text is read as exactly these lexemes in their order, each where it was written and
with the bytes that it was written at, and the end of the text behind them. -/
theorem tokenize_spread (front : List Spacer) (entries : List SpacedLexeme) (ending : List Char)
    (distinct : Distinct entries ending) :
    tokenize (String.ofList (spacing front ++ (spread entries ++ ending))) =
      .ok (spreadTokens (spacing front) entries ++
        [.endAt (Location.start.after (spacing front ++ (spread entries ++ ending)))]) ∧
    (spreadTokens (spacing front) entries).map (fun token =>
      (token.toLexeme, token.span.start.offset, token.span.stop.offset)) =
      entries.mapIdx fun index entry =>
        let before := spacing front ++ spread (entries.take index)
        (entry.lexeme, byteLength before, byteLength (before ++ entry.lexeme.text.toList)) := by
  constructor
  · obtain ⟨pieces, last, split, tokens⟩ :=
      distinct.splits (spacing front) (fun _ _ more => gap_spacing more _) []
    rw [← String.toList_ofList (l := spacing front ++ (spread entries ++ ending))] at split
    rw [tokenize_of_splits split, String.toList_ofList]
    exact congrArg (fun found => Except.ok (found ++ _)) tokens
  · refine List.ext_getElem? fun index => ?_
    rw [spreadTokens, List.getElem?_map, List.getElem?_mapIdx, List.getElem?_mapIdx, Option.map_map]
    refine congrArg (Option.map · entries[index]?) ?_
    funext entry
    simp [Lexeme.placed, Location.start_after, Nat.add_assoc]

/-- A name behind comments, a fraction behind a wide blank and a comment of marks, and a slash in
front of a comment that is not closed. -/
theorem tokenize_spread_comments : ∃ front entries ending,
    Distinct entries ending ∧
    spacing front ++ (spread entries ++ ending) = "/** é*///\"/*\nx\u3000/*//**/1.50\n/ //".toList ∧
    tokenize (String.ofList (spacing front ++ (spread entries ++ ending))) =
      .ok [⟨⟨.identifier, "x"⟩, ⟨⟨14, 2, 1⟩, ⟨15, 2, 2⟩⟩⟩,
        ⟨⟨.float, "1.50"⟩, ⟨⟨25, 2, 10⟩, ⟨29, 2, 14⟩⟩⟩, ⟨⟨.slash, "/"⟩, ⟨⟨30, 3, 1⟩, ⟨31, 3, 2⟩⟩⟩,
        ⟨⟨.endOfInput, ""⟩, ⟨⟨34, 3, 5⟩, ⟨34, 3, 5⟩⟩⟩] := by
  let front : List Spacer := [.block ['*', ' ', 'é'] (by decide), .line ['"', '/', '*'] (by decide)]
  let entries : List SpacedLexeme :=
    [⟨⟨.identifier, "x"⟩, [.blank '\u3000' (by decide), .block ['/', '/', '*'] (by decide)]⟩,
      ⟨⟨.float, "1.50"⟩, [.blank '\n' (by decide)]⟩, ⟨⟨.slash, "/"⟩, [.blank ' ' (by decide)]⟩]
  have name : Lexeme.WellSpelled ⟨.identifier, "x"⟩ := @Spells.word 'x' [] (by decide) (by simp)
  have number : Lexeme.WellSpelled ⟨.float, "1.50"⟩ :=
    @Spells.float ['1'] ['5', '0'] (by simp) (by simp) (by simp) (by simp)
  have slash : Lexeme.WellSpelled ⟨.slash, "/"⟩ := @Spells.mark '/' _ rfl
  have distinct : Distinct entries ['/', '/'] := by
    refine ⟨?_, by decide, by decide, .inr ⟨[], rfl, List.not_mem_nil⟩⟩
    simpa [entries] using ⟨name, number, slash⟩
  exact ⟨front, entries, ['/', '/'], distinct, by decide, (tokenize_spread _ _ _ distinct).1⟩

end Spreading

end SableSyntax
