/- SableSyntax/Lexing/Cursor
   digest: Taking the next token off a text: gaps are skipped, the longest lexeme is taken. -/

import SableSyntax.SyntaxError
import SableSyntax.Text.Blank

set_option autoImplicit false
set_option relaxedAutoImplicit false

namespace SableSyntax

/-- What is left of a text, and the place it starts at. -/
structure Cursor where
  location : Location
  rest : List Char
  deriving DecidableEq, Repr

/-- Where the skipping of a gap stands; a block comment remembers where it was opened. -/
inductive GapMode
  | between | lineComment | blockComment (opening : Location)
  deriving DecidableEq, Repr

/-- Skips blanks and comments. A line comment ends with its line, a block comment at the first
closing mark behind its opening mark; one that is never closed takes the whole text along. -/
def skipGap : GapMode → Location → List Char → EStateM.Result SyntaxError Cursor Unit
  | .between, place, [] => .ok () ⟨place, []⟩
  | .between, place, '/' :: '/' :: rest => skipGap .lineComment (place.after ['/', '/']) rest
  | .between, place, '/' :: '*' :: rest =>
    skipGap (.blockComment place) (place.after ['/', '*']) rest
  | .between, place, c :: rest =>
    if isBlank c then skipGap .between (place.advance c) rest else .ok () ⟨place, c :: rest⟩
  | .lineComment, place, [] => .ok () ⟨place, []⟩
  | .lineComment, place, c :: rest =>
    skipGap (if c = '\n' then .between else .lineComment) (place.advance c) rest
  | .blockComment opening, place, [] => .error ⟨.unterminatedComment, ⟨opening, place⟩⟩ ⟨place, []⟩
  | .blockComment _, place, '*' :: '/' :: rest => skipGap .between (place.after ['*', '/']) rest
  | .blockComment opening, place, c :: rest =>
    skipGap (.blockComment opening) (place.advance c) rest

def isWordStart (c : Char) : Bool := c.isAlpha || c == '_'

def isWordChar (c : Char) : Bool := c.isAlphanum || c == '_'

structure Scan where
  kind : TokenKind
  spelling : List Char
  rest : List Char
  deriving DecidableEq, Repr

def scanNumber (text : List Char) : Scan :=
  let whole := text.takeWhile Char.isDigit
  match text.dropWhile Char.isDigit with
  | '.' :: c :: rest =>
    if c.isDigit then
      ⟨.float, whole ++ '.' :: c :: rest.takeWhile Char.isDigit, rest.dropWhile Char.isDigit⟩
    else ⟨.integer, whole, '.' :: c :: rest⟩
  | rest => ⟨.integer, whole, rest⟩

def scanWord (text : List Char) : Scan :=
  let word := text.takeWhile isWordChar
  ⟨.ofWord (String.ofList word), word, text.dropWhile isWordChar⟩

/-- The longest lexeme at the head of a text without a leading gap, unless its first character
starts none. -/
def scan : List Char → Except Char Scan
  | [] => .ok ⟨.endOfInput, [], []⟩
  | c :: rest =>
    if isWordStart c then .ok (scanWord (c :: rest))
    else if c.isDigit then .ok (scanNumber (c :: rest))
    else
      match TokenKind.punctuation? c with
      | some kind => .ok ⟨kind, [c], rest⟩
      | none => .error c

namespace Cursor

def ofText (text : String) : Cursor := ⟨.start, text.toList⟩

/-- The token at a cursor without a leading gap; a character that starts none is passed over. -/
def lexeme (cursor : Cursor) : EStateM.Result SyntaxError Cursor Token :=
  match scan cursor.rest with
  | .ok found =>
    let stop := cursor.location.after found.spelling
    .ok ⟨⟨found.kind, String.ofList found.spelling⟩, ⟨cursor.location, stop⟩⟩ ⟨stop, found.rest⟩
  | .error c =>
    let stop := cursor.location.advance c
    .error ⟨.unrecognizedCharacter c, ⟨cursor.location, stop⟩⟩ ⟨stop, cursor.rest.tail⟩

/-- The next token, or the fault that stands in its way; either way the cursor is moved behind
it. At the end of the text the end is found again and again. -/
def next (cursor : Cursor) : EStateM.Result SyntaxError Cursor Token :=
  match skipGap .between cursor.location cursor.rest with
  | .ok () reached => reached.lexeme
  | .error error reached => .error error reached

end Cursor

theorem spelling_append_rest_scanNumber (text : List Char) :
    (scanNumber text).spelling ++ (scanNumber text).rest = text := by
  have split : text.takeWhile Char.isDigit ++ text.dropWhile Char.isDigit = text :=
    List.takeWhile_append_dropWhile
  unfold scanNumber
  split
  · next c rest found =>
    split
    · simp [← found, split, List.takeWhile_append_dropWhile]
    · simp [← found, split]
  · simp [split]

theorem spelling_append_rest_of_scan {text : List Char} {found : Scan} (h : scan text = .ok found) :
    found.spelling ++ found.rest = text := by
  unfold scan at h
  split at h
  · cases h
    rfl
  · split at h
    · cases h
      exact List.takeWhile_append_dropWhile
    · split at h
      · cases h
        exact spelling_append_rest_scanNumber _
      · split at h
        · cases h
          rfl
        · cases h

theorem kind_ofWord_ne_endOfInput (word : String) : TokenKind.ofWord word ≠ .endOfInput := by
  unfold TokenKind.ofWord TokenKind.keyword?
  split <;> simp

theorem kind_scanNumber_ne_endOfInput (text : List Char) :
    (scanNumber text).kind ≠ .endOfInput := by
  unfold scanNumber
  split
  · split <;> simp
  · simp

theorem punctuation?_ne_endOfInput (c : Char) : TokenKind.punctuation? c ≠ some .endOfInput := by
  unfold TokenKind.punctuation?
  split <;> simp

theorem kind_eq_endOfInput_iff_of_scan {text : List Char} {found : Scan}
    (h : scan text = .ok found) : found.kind = .endOfInput ↔ text = [] := by
  unfold scan at h
  split at h
  · cases h
    simp
  · next c rest =>
    split at h
    · cases h
      simp [scanWord, kind_ofWord_ne_endOfInput]
    · split at h
      · cases h
        simp [kind_scanNumber_ne_endOfInput]
      · split at h
        · next kind hkind =>
          cases h
          have := punctuation?_ne_endOfInput c
          simp_all
        · cases h

theorem spelling_ne_nil_of_scan {c : Char} {text : List Char} {found : Scan}
    (h : scan (c :: text) = .ok found) : found.spelling ≠ [] := by
  simp only [scan] at h
  split at h
  · next hword =>
    cases h
    have hchar : isWordChar c := by
      simp only [isWordStart, Bool.or_eq_true, beq_iff_eq] at hword
      rcases hword with hword | rfl
      · simp [isWordChar, Char.isAlphanum, hword]
      · decide
    simp [scanWord, hchar]
  · split at h
    · next hdigit =>
      cases h
      unfold scanNumber
      split
      · split <;> simp [hdigit]
      · simp [hdigit]
    · split at h
      · cases h
        simp
      · cases h

theorem rest_length_le_of_skipGap {mode : GapMode} {place : Location} {text : List Char}
    {reached : Cursor} (h : skipGap mode place text = .ok () reached) :
    reached.rest.length ≤ text.length := by
  fun_induction skipGap mode place text with
  | case1 | case5 | case6 =>
    cases h
    exact Nat.le_refl _
  | case2 _ _ ih | case3 _ _ ih | case9 _ _ _ ih =>
    exact Nat.le_trans (ih h) (Nat.le_add_right _ 2)
  | case4 _ _ _ _ _ _ ih | case7 _ _ _ ih | case10 _ _ _ _ _ ih =>
    exact Nat.le_trans (ih h) (Nat.le_add_right _ 1)
  | case8 => cases h

theorem rest_eq_nil_of_skipGap {mode : GapMode} {place : Location} {text : List Char}
    {error : SyntaxError} {reached : Cursor} (h : skipGap mode place text = .error error reached) :
    reached.rest = [] := by
  fun_induction skipGap mode place text with
  | case1 | case5 | case6 => cases h
  | case8 =>
    cases h
    rfl
  | case2 _ _ ih | case3 _ _ ih | case9 _ _ _ ih => exact ih h
  | case4 _ _ _ _ _ _ ih | case7 _ _ _ ih | case10 _ _ _ _ _ ih => exact ih h

theorem rest_length_le_of_scan {text : List Char} {found : Scan} (h : scan text = .ok found) :
    found.rest.length ≤ text.length := by
  rw [← spelling_append_rest_of_scan h, List.length_append]
  exact Nat.le_add_left _ _

namespace Cursor

theorem rest_length_le_of_next {cursor reached : Cursor} {token : Token}
    (h : cursor.next = .ok token reached) : reached.rest.length ≤ cursor.rest.length := by
  unfold next at h
  split at h
  · next middle gap =>
    unfold lexeme at h
    split at h
    · next found hscan =>
      cases h
      exact Nat.le_trans (rest_length_le_of_scan hscan) (rest_length_le_of_skipGap gap)
    · cases h
  · cases h

theorem rest_length_lt_of_next {cursor reached : Cursor} {token : Token}
    (h : cursor.next = .ok token reached) (notEnd : token.kind ≠ .endOfInput) :
    reached.rest.length < cursor.rest.length := by
  unfold next at h
  split at h
  · next middle gap =>
    have shorter := rest_length_le_of_skipGap gap
    unfold lexeme at h
    split at h
    · next found hscan =>
      cases h
      have whole := congrArg List.length (spelling_append_rest_of_scan hscan)
      cases htext : middle.rest with
      | nil => exact absurd ((kind_eq_endOfInput_iff_of_scan hscan).2 htext) notEnd
      | cons c text =>
        have := List.length_pos_iff.2 (spelling_ne_nil_of_scan (htext ▸ hscan))
        simp only [List.length_append] at whole
        simp only
        omega
    · cases h
  · cases h

end Cursor

end SableSyntax
