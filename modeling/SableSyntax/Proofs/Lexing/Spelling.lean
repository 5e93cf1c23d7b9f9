/- SableSyntax/Proofs/Lexing/Spelling
   digest: The texts of each kind of token, and reading a text that was put together from them. -/

import SableSyntax.Proofs.Lexing.Gaps
import SableSyntax.Proofs.Lexing.TokenStream

set_option autoImplicit false
set_option relaxedAutoImplicit false

namespace SableSyntax

/-- The texts that a kind of token is written as. -/
inductive Spells : TokenKind → List Char → Prop
  | word {c : Char} {text : List Char} (start : isWordStart c) (more : ∀ d ∈ text, isWordChar d) :
    Spells (.ofWord (String.ofList (c :: text))) (c :: text)
  | integer {digits : List Char} (nonempty : digits ≠ []) (all : ∀ d ∈ digits, d.isDigit) :
    Spells .integer digits
  | float {whole fraction : List Char} (nonempty : whole ≠ []) (all : ∀ d ∈ whole, d.isDigit)
    (nonempty' : fraction ≠ []) (all' : ∀ d ∈ fraction, d.isDigit) :
    Spells .float (whole ++ '.' :: fraction)
  | mark {c : Char} {kind : TokenKind} (h : TokenKind.punctuation? c = some kind) :
    Spells kind [c]

theorem Spells.ne_endOfInput {kind : TokenKind} {text : List Char} (h : Spells kind text) :
    kind ≠ .endOfInput := by
  cases h with
  | word => exact kind_ofWord_ne_endOfInput _
  | integer | float => simp
  | mark h =>
    intro same
    subst same
    exact punctuation?_ne_endOfInput _ h

def TokenKind.sampleText : TokenKind → String
  | .integer => "0"
  | .float => "0.0"
  | .identifier => "x"
  | .func => "func"
  | .var => "var"
  | .plus => "+"
  | .minus => "-"
  | .star => "*"
  | .slash => "/"
  | .equal => "="
  | .colon => ":"
  | .comma => ","
  | .semicolon => ";"
  | .leftParen => "("
  | .rightParen => ")"
  | .leftBrace => "\x7b"
  | .rightBrace => "\x7d"
  | .endOfInput => ""

theorem spells_sampleText {kind : TokenKind} (notEnd : kind ≠ .endOfInput) :
    Spells kind kind.sampleText.toList := by
  cases kind
  case integer => exact .integer (by decide) (List.all_eq_true.1 rfl)
  case float =>
    have zero : ∀ d ∈ ['0'], d.isDigit := List.all_eq_true.1 rfl
    exact .float (by decide) zero (by decide) zero
  case identifier => exact @Spells.word 'x' [] (by decide) (List.all_eq_true.1 rfl)
  case func => exact @Spells.word 'f' ['u', 'n', 'c'] (by decide) (List.all_eq_true.1 rfl)
  case var => exact @Spells.word 'v' ['a', 'r'] (by decide) (List.all_eq_true.1 rfl)
  case endOfInput => exact absurd rfl notEnd
  all_goals exact .mark rfl

def Lexeme.WellSpelled (lexeme : Lexeme) : Prop := Spells lexeme.kind lexeme.text.toList

/-- Whether a text cannot prolong a token of a kind that stands before it. -/
def Ends (kind : TokenKind) (rest : List Char) : Prop :=
  match kind with
  | .identifier | .func | .var => ∀ c ∈ rest.head?, ¬ isWordChar c
  | .integer =>
    (∀ c ∈ rest.head?, ¬ c.isDigit) ∧ ∀ c more, rest = '.' :: c :: more → ¬ c.isDigit
  | .float => ∀ c ∈ rest.head?, ¬ c.isDigit
  | .slash => ∀ c ∈ rest.head?, c ≠ '/' ∧ c ≠ '*'
  | _ => True

def Token.sample (kind : TokenKind) : Token := ⟨⟨kind, kind.sampleText⟩, default⟩

@[simp] theorem kind_sample (kind : TokenKind) : (Token.sample kind).kind = kind := rfl

theorem wellSpelled_sample {kind : TokenKind} (notEnd : kind ≠ .endOfInput) :
    (Token.sample kind).WellSpelled :=
  spells_sampleText notEnd

section Characters

theorem isWordChar_of_isWordStart {c : Char} (h : isWordStart c) : isWordChar c := by
  simp only [isWordStart, isWordChar, Char.isAlphanum, Bool.or_eq_true] at h ⊢
  rcases h with h | h
  · exact .inl (.inl h)
  · exact .inr h

theorem toNat_of_isDigit {c : Char} (h : c.isDigit) : 48 ≤ c.toNat ∧ c.toNat ≤ 57 := by
  simpa [Char.isDigit, UInt32.le_iff_toNat_le] using h

theorem toNat_of_isWordStart {c : Char} (h : isWordStart c) :
    65 ≤ c.toNat ∧ c.toNat ≤ 122 := by
  rcases Bool.or_eq_true_iff.1 h with letter | underscore
  · rcases Bool.or_eq_true_iff.1 letter with upper | lower
    · have range : 65 ≤ c.toNat ∧ c.toNat ≤ 90 := of_decide_eq_true upper
      omega
    · obtain ⟨low, high⟩ := Bool.and_eq_true_iff.1 lower
      have low : 97 ≤ c.toNat := of_decide_eq_true low
      have high : c.toNat ≤ 122 := of_decide_eq_true high
      omega
  · rw [beq_iff_eq.1 underscore]
    decide

private theorem toNat_of_punctuation? {c : Char} {kind : TokenKind}
    (h : TokenKind.punctuation? c = some kind) : 33 ≤ c.toNat ∧ c.toNat ≤ 126 := by
  unfold TokenKind.punctuation? at h
  split at h <;> first | decide | cases h

private theorem isBlank_eq_false {c : Char} (low : 33 ≤ c.toNat) (high : c.toNat ≤ 126) :
    isBlank c = false := by
  simp only [isBlank, blankRanges, List.any_cons, List.any_nil, Bool.or_false, Bool.or_eq_false_iff,
    Bool.and_eq_false_iff, decide_eq_false_iff_not]
  omega

theorem not_isWordStart_of_isDigit {c : Char} (h : c.isDigit) : isWordStart c = false := by
  refine Bool.eq_false_iff.2 fun start => ?_
  have := toNat_of_isWordStart start
  have := toNat_of_isDigit h
  omega

theorem not_isWordStart_of_punctuation? {c : Char} {kind : TokenKind}
    (h : TokenKind.punctuation? c = some kind) : isWordStart c = false := by
  unfold TokenKind.punctuation? at h
  split at h <;> first | decide | cases h

theorem not_isDigit_of_punctuation? {c : Char} {kind : TokenKind}
    (h : TokenKind.punctuation? c = some kind) : c.isDigit = false := by
  unfold TokenKind.punctuation? at h
  split at h <;> first | decide | cases h

theorem isWordChar_of_isDigit {c : Char} (h : c.isDigit) : isWordChar c := by
  simp [isWordChar, Char.isAlphanum, h]

theorem not_isWordChar_of_isBlank {c : Char} (blank : isBlank c) : ¬ isWordChar c := by
  have outside : c.toNat < 33 ∨ 126 < c.toNat := by
    simp only [isBlank, blankRanges, List.any_cons, List.any_nil, Bool.or_false, Bool.or_eq_true,
      Bool.and_eq_true, decide_eq_true_eq] at blank
    omega
  intro word
  simp only [isWordChar, Char.isAlphanum, Bool.or_eq_true] at word
  rcases word with (letter | digit) | underscore
  · have := toNat_of_isWordStart (c := c) (by simp [isWordStart, letter])
    omega
  · have := toNat_of_isDigit digit
    omega
  · have := toNat_of_isWordStart (c := c) (by simp [isWordStart, underscore])
    omega

theorem not_isBlank_of_punctuation? {c : Char} {kind : TokenKind}
    (h : TokenKind.punctuation? c = some kind) : isBlank c = false := by
  unfold TokenKind.punctuation? at h
  split at h <;> cases h <;> decide

theorem Spells.not_isBlank {kind : TokenKind} {text : List Char} (h : Spells kind text) :
    ∀ c ∈ text, ¬ isBlank c := by
  intro c member blank
  have notWord := not_isWordChar_of_isBlank blank
  have notDigit : ¬ c.isDigit := fun digit => notWord (isWordChar_of_isDigit digit)
  cases h with
  | word start more =>
    rcases List.mem_cons.1 member with rfl | member
    · exact notWord (isWordChar_of_isWordStart start)
    · exact notWord (more c member)
  | integer nonempty all => exact notDigit (all c member)
  | float nonempty all nonempty' all' =>
    rcases List.mem_append.1 member with member | member
    · exact notDigit (all c member)
    · rcases List.mem_cons.1 member with rfl | member
      · exact absurd blank (by decide)
      · exact notDigit (all' c member)
  | mark h =>
    rw [List.mem_singleton.1 member, not_isBlank_of_punctuation? h] at blank
    cases blank

end Characters

section Scanning

theorem takeWhile_append_of_all {p : Char → Bool} {text rest : List Char}
    (all : ∀ c ∈ text, p c) (stop : ∀ c ∈ rest.head?, ¬ p c) :
    (text ++ rest).takeWhile p = text ∧ (text ++ rest).dropWhile p = rest := by
  rw [List.takeWhile_append_of_pos all, List.dropWhile_append_of_pos all]
  cases rest with
  | nil => simp
  | cons c rest =>
    have := stop c rfl
    simp_all

theorem spells_of_scan {text : List Char} {found : Scan} (h : scan text = .ok found)
    (nonempty : text ≠ []) : Spells found.kind found.spelling := by
  unfold scan at h
  split at h
  · exact absurd rfl nonempty
  · next c rest =>
    split at h
    · next start =>
      cases h
      have head : (c :: rest).takeWhile isWordChar = c :: rest.takeWhile isWordChar := by
        simp [isWordChar_of_isWordStart start]
      simp only [scanWord, head]
      refine .word start fun d member => ?_
      exact List.all_eq_true.1 (List.all_takeWhile) d member
    · split at h
      · next digit =>
        cases h
        have digits : ∀ d ∈ (c :: rest).takeWhile Char.isDigit, d.isDigit :=
          List.all_eq_true.1 List.all_takeWhile
        have some_digit : (c :: rest).takeWhile Char.isDigit ≠ [] := by simp [digit]
        unfold scanNumber
        split
        · next d more _ =>
          split
          · next digit' =>
            refine .float some_digit digits (by simp) ?_
            simp only [List.mem_cons]
            intro e member
            rcases member with rfl | member
            · exact digit'
            · exact List.all_eq_true.1 List.all_takeWhile e member
          · exact .integer some_digit digits
        · exact .integer some_digit digits
      · split at h
        · next kind mark =>
          cases h
          exact .mark mark
        · cases h

private theorem scanNumber_integer {digits rest : List Char} (all : ∀ d ∈ digits, d.isDigit)
    (ends : Ends .integer rest) : scanNumber (digits ++ rest) = ⟨.integer, digits, rest⟩ := by
  obtain ⟨taken, dropped⟩ := takeWhile_append_of_all all ends.1
  unfold scanNumber
  simp only [taken, dropped]
  split
  · next _ c more => simp [ends.2 c more rfl]
  · rfl

private theorem scanNumber_float {whole fraction rest : List Char}
    (all : ∀ d ∈ whole, d.isDigit) (nonempty : fraction ≠ []) (all' : ∀ d ∈ fraction, d.isDigit)
    (ends : Ends .float rest) :
    scanNumber (whole ++ '.' :: fraction ++ rest) =
      ⟨.float, whole ++ '.' :: fraction, rest⟩ := by
  obtain ⟨first, more, rfl⟩ := List.exists_cons_of_ne_nil nonempty
  simp only [List.forall_mem_cons] at all'
  obtain ⟨taken, dropped⟩ := @takeWhile_append_of_all Char.isDigit whole
    ('.' :: first :: (more ++ rest)) all (by simp)
  obtain ⟨taken', dropped'⟩ := takeWhile_append_of_all all'.2 ends
  unfold scanNumber
  simp [taken, dropped, taken', dropped', all'.1]

theorem ofWord_cases (word : String) : TokenKind.ofWord word = .identifier ∨
    TokenKind.ofWord word = .func ∨ TokenKind.ofWord word = .var := by
  unfold TokenKind.ofWord TokenKind.keyword?
  split <;> simp

/-- The longest lexeme at the head of a text is the one that nothing prolongs. -/
theorem scan_append {kind : TokenKind} {text rest : List Char} (spelled : Spells kind text)
    (ends : Ends kind rest) : scan (text ++ rest) = .ok ⟨kind, text, rest⟩ := by
  cases spelled with
  | @word c text start more =>
    have stop : ∀ d ∈ rest.head?, ¬ isWordChar d := by
      rcases ofWord_cases (String.ofList (c :: text)) with same | same | same <;>
        simpa only [same, Ends] using ends
    have all : ∀ d ∈ c :: text, isWordChar d := by
      simpa using ⟨isWordChar_of_isWordStart start, more⟩
    obtain ⟨taken, dropped⟩ := takeWhile_append_of_all all stop
    simp only [List.cons_append] at taken dropped ⊢
    simp only [scan, start, ↓reduceIte, scanWord, taken, dropped]
  | integer nonempty all =>
    have read := scanNumber_integer all ends
    obtain ⟨first, more, rfl⟩ := List.exists_cons_of_ne_nil nonempty
    simp only [List.forall_mem_cons] at all
    simp only [List.cons_append] at read ⊢
    simp [scan, not_isWordStart_of_isDigit all.1, all.1, read]
  | float nonempty all nonempty' all' =>
    have read := scanNumber_float all nonempty' all' ends
    obtain ⟨first, more, rfl⟩ := List.exists_cons_of_ne_nil nonempty
    simp only [List.forall_mem_cons] at all
    simp only [List.cons_append] at read ⊢
    simp only [scan, not_isWordStart_of_isDigit all.1, all.1, read, Bool.false_eq_true, ↓reduceIte]
  | mark h =>
    simp [scan, not_isWordStart_of_punctuation? h, not_isDigit_of_punctuation? h, h]

end Scanning

section Writing

/-- No token starts like a gap; a slash begins no comment, since none of the two marks that could
make it one follows. -/
theorem not_opensGap_of_spells {kind : TokenKind} {text rest : List Char}
    (spelled : Spells kind text) (ends : Ends kind rest) : ¬ OpensGap (text ++ rest) := by
  have other : ∀ {c : Char} {more : List Char}, 33 ≤ c.toNat → c.toNat ≤ 126 → c ≠ '/' →
      ¬ OpensGap (c :: more) := by
    intro c more low high other opens
    cases opens with
    | blank blank => simp [isBlank_eq_false low high] at blank
    | line | block => exact other rfl
  have digit : ∀ {c : Char} {more : List Char}, c.isDigit → ¬ OpensGap (c :: more) := by
    intro c more digit
    have := toNat_of_isDigit digit
    apply other (by omega) (by omega)
    intro same
    subst same
    exact absurd digit (by decide)
  cases spelled with
  | @word c text start =>
    have := toNat_of_isWordStart start
    apply other (by omega) (by omega)
    intro same
    subst same
    exact absurd start (by decide)
  | integer nonempty all | float nonempty all =>
    obtain ⟨first, more, rfl⟩ := List.exists_cons_of_ne_nil nonempty
    exact digit (all first List.mem_cons_self)
  | @mark c _ h =>
    have := toNat_of_punctuation? h
    by_cases slash : c = '/'
    · subst slash
      obtain rfl : kind = .slash := by simpa [TokenKind.punctuation?] using h.symm
      intro opens
      cases opens with
      | blank blank => exact absurd blank (by decide)
      | line rest => exact (ends '/' rfl).1 rfl
      | block rest => exact (ends '*' rfl).2 rfl
    · exact other this.1 this.2 slash

def Lexeme.placed (lexeme : Lexeme) (place : Location) : Token :=
  ⟨lexeme, ⟨place, place.after lexeme.text.toList⟩⟩

theorem Cursor.next_of_wellSpelled {lexeme : Lexeme} {rest : List Char}
    (spelled : lexeme.WellSpelled) (ends : Ends lexeme.kind rest) (place : Location) :
    Cursor.next ⟨place, lexeme.text.toList ++ rest⟩ =
      .ok (lexeme.placed place) ⟨place.after lexeme.text.toList, rest⟩ := by
  have reached := skipGap_of_not_opensGap (not_opensGap_of_spells spelled ends) place
  simp [Cursor.next, reached, Cursor.lexeme, scan_append spelled ends, Lexeme.placed]

/-- A text gives some lexemes and then what the rest behind it gives, wherever it stands. -/
def Lexes (text rest : List Char) (lexemes : List Lexeme) : Prop :=
  ∀ place : Location, (Cursor.results ⟨place, text ++ rest⟩).map LexResult.unplaced =
    lexemes.map .ok ++ (Cursor.results ⟨place.after text, rest⟩).map LexResult.unplaced

theorem Lexes.nil (rest : List Char) : Lexes [] rest [] := fun _ => rfl

theorem Lexes.append {first second rest : List Char} {lexemes lexemes' : List Lexeme}
    (before : Lexes first (second ++ rest) lexemes) (behind : Lexes second rest lexemes') :
    Lexes (first ++ second) rest (lexemes ++ lexemes') := by
  intro place
  rw [List.append_assoc, before place, behind (place.after first), Location.after_append,
    List.map_append, List.append_assoc]

theorem Lexes.gap {gap rest : List Char} (h : Gap gap rest) : Lexes gap rest [] := by
  intro place
  rw [Cursor.results, Cursor.next_of_gap h, ← Cursor.results]
  rfl

theorem Lexes.blank {c : Char} (blank : isBlank c) (rest : List Char) : Lexes [c] rest [] :=
  .gap (.blank blank .empty)

theorem Lexes.lexeme {lexeme : Lexeme} {rest : List Char} (spelled : lexeme.WellSpelled)
    (ends : Ends lexeme.kind rest) : Lexes lexeme.text.toList rest [lexeme] := by
  intro place
  rw [Cursor.results_of_token (Cursor.next_of_wellSpelled spelled ends place)
    (Spells.ne_endOfInput spelled)]
  rfl

theorem ends_blank (kind : TokenKind) (rest : List Char) : Ends kind (' ' :: rest) := by
  cases kind <;> simp [Ends] <;> decide

def spaced (lexemes : List Lexeme) : List Char :=
  lexemes.flatMap fun lexeme => lexeme.text.toList ++ [' ']

theorem lexes_spaced {lexemes : List Lexeme} (spelled : ∀ lexeme ∈ lexemes, lexeme.WellSpelled)
    (rest : List Char) : Lexes (spaced lexemes) rest lexemes := by
  induction lexemes with
  | nil => exact .nil rest
  | cons lexeme lexemes ih =>
    simp only [List.forall_mem_cons] at spelled
    have behind := (Lexes.blank (c := ' ') (by decide) (spaced lexemes ++ rest)).append
      (ih spelled.2)
    have whole := (@Lexes.lexeme lexeme (' ' :: (spaced lexemes ++ rest)) spelled.1
      (ends_blank _ _)).append behind
    simpa [spaced] using whole

theorem unplaced_results_of_lexes {text : String} {lexemes : List Lexeme}
    (h : Lexes text.toList [] lexemes) :
    (Cursor.ofText text).results.map LexResult.unplaced =
      (lexemes ++ [Lexeme.mk .endOfInput ""]).map .ok := by
  have atEnd (place : Location) : Cursor.next ⟨place, []⟩ =
      .ok ⟨⟨.endOfInput, ""⟩, ⟨place, place⟩⟩ ⟨place, []⟩ := rfl
  have all := h .start
  rw [List.append_nil, Cursor.results_of_end (atEnd _) rfl] at all
  rw [Cursor.ofText, all, List.map_append]
  rfl

theorem wellSpelled_of_next {cursor reached : Cursor} {token : Token}
    (h : cursor.next = .ok token reached) (notEnd : token.kind ≠ .endOfInput) :
    token.WellSpelled := by
  unfold Cursor.next at h
  split at h
  · next middle gap =>
    unfold Cursor.lexeme at h
    split at h
    · next found hscan =>
      cases h
      simp only [Lexeme.WellSpelled, String.toList_ofList]
      refine spells_of_scan hscan fun empty => ?_
      exact notEnd ((kind_eq_endOfInput_iff_of_scan hscan).2 empty)
    · cases h
  · cases h

theorem wellSpelled_of_mem_results {cursor : Cursor} {token : Token}
    (member : .ok token ∈ cursor.results) (notEnd : token.kind ≠ .endOfInput) :
    token.WellSpelled := by
  obtain ⟨middle, reached, next⟩ := Cursor.exists_next_of_mem_results member
  exact wellSpelled_of_next next notEnd

theorem exists_tokens_of_unplaced {results : List LexResult} {lexemes : List Lexeme}
    (h : results.map LexResult.unplaced = lexemes.map .ok) :
    ∃ tokens : List Token, results = tokens.map .ok ∧ tokens.map Token.toLexeme = lexemes := by
  induction results generalizing lexemes with
  | nil =>
    cases lexemes with
    | nil => exact ⟨[], rfl, rfl⟩
    | cons => simp at h
  | cons result results ih =>
    cases lexemes with
    | nil => simp at h
    | cons lexeme lexemes =>
      simp only [List.map_cons, List.cons.injEq] at h
      obtain ⟨tokens, rfl, rfl⟩ := ih h.2
      cases result with
      | error error => simp [LexResult.unplaced] at h
      | ok token =>
        obtain rfl : token.toLexeme = lexeme := by simpa [LexResult.unplaced] using h.1
        exact ⟨token :: tokens, rfl, rfl⟩

theorem tokenize_of_lexes {text : String} {lexemes : List Lexeme}
    (h : Lexes text.toList [] lexemes) : ∃ tokens stop,
      tokenize text = .ok (tokens ++ [stop]) ∧ tokens.map Token.toLexeme = lexemes ∧
      stop.toLexeme = ⟨.endOfInput, ""⟩ := by
  obtain ⟨all, same, lexed⟩ := exists_tokens_of_unplaced (unplaced_results_of_lexes h)
  obtain ⟨tokens, last, rfl, lexed', lexedLast⟩ := List.map_eq_append_iff.1 lexed
  obtain ⟨stop, rfl, lexedStop⟩ := List.map_eq_singleton_iff.1 lexedLast
  exact ⟨tokens, stop, tokenize_eq_ok_iff.2 same, lexed', lexedStop⟩

theorem wellSpelled_of_results {source : String} {used : List Token} {result : LexResult}
    {rest : List LexResult}
    (h : (Cursor.ofText source).results = used.map .ok ++ result :: rest) :
    ∀ token ∈ used, token.WellSpelled := by
  intro token member
  obtain ⟨body, stop, same, -, others⟩ := (Cursor.ofText source).exists_results_eq_append_end
  have listed : Except.ok token ∈ (Cursor.ofText source).results := by
    rw [h]
    exact List.mem_append_left _ (List.mem_map_of_mem member)
  refine wellSpelled_of_mem_results listed (others token ?_)
  have front := congrArg List.dropLast (h.symm.trans same)
  rw [List.dropLast_concat, List.dropLast_append_of_ne_nil (by simp)] at front
  exact front ▸ List.mem_append_left _ (List.mem_map_of_mem member)

end Writing

end SableSyntax
