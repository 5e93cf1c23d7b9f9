/- SableSyntax/Proofs/Lexing/Splitting
   digest: Texts fall into gaps and longest tokens in one way, and are read as these tokens. -/

import SableSyntax.Proofs.Lexing.Spelling

set_option autoImplicit false
set_option relaxedAutoImplicit false

namespace SableSyntax

/-- A lexeme and the gap in front of it. -/
structure Piece where
  gap : List Char
  lexeme : Lexeme
  deriving DecidableEq, Repr

/-- The ways to take a text apart into gaps and lexemes, with a last gap behind them all. What
follows the text, judged together with it, prolongs none of the lexemes and no gap. -/
inductive Splits (rest : List Char) : List Char → List Piece → List Char → Prop
  | last {gap : List Char} (isGap : Gap gap rest) : Splits rest gap [] gap
  | piece {gap text last : List Char} {lexeme : Lexeme} {pieces : List Piece}
    (isGap : Gap gap (lexeme.text.toList ++ (text ++ rest))) (spelled : lexeme.WellSpelled)
    (ends : Ends lexeme.kind (text ++ rest)) (more : Splits rest text pieces last) :
    Splits rest (gap ++ (lexeme.text.toList ++ text)) (⟨gap, lexeme⟩ :: pieces) last

def Piece.tokens : Location → List Piece → List Token
  | _, [] => []
  | place, piece :: pieces =>
    piece.lexeme.placed (place.after piece.gap) ::
      tokens ((place.after piece.gap).after piece.lexeme.text.toList) pieces

/-- The end of a text as a token. -/
def Token.endAt (place : Location) : Token := ⟨⟨.endOfInput, ""⟩, .point place⟩

/-- Whether a character starts neither a gap nor a token. -/
def IsStray (c : Char) : Prop :=
  ¬ isBlank c ∧ ¬ isWordStart c ∧ ¬ c.isDigit ∧ TokenKind.punctuation? c = none

/-- The fault that a text at a place begins with: a character that nothing starts with, or a
comment that is never closed. -/
inductive BeginsWithFault (place : Location) : List Char → SyntaxError → Prop
  | stray {c : Char} {rest : List Char} (stray : IsStray c) :
    BeginsWithFault place (c :: rest) ⟨.unrecognizedCharacter c, ⟨place, place.advance c⟩⟩
  | unclosed {body : List Char} (unclosed : ¬ ['*', '/'] <:+: body) :
    BeginsWithFault place ('/' :: '*' :: body)
      ⟨.unterminatedComment, ⟨place, place.after ('/' :: '*' :: body)⟩⟩

section Scanning

private theorem not_of_mem_head?_dropWhile (p : Char → Bool) (text : List Char) :
    ∀ c ∈ (text.dropWhile p).head?, ¬ p c := by
  intro c head
  have stopped := List.head?_dropWhile_not p text
  rw [Option.mem_def.1 head] at stopped
  simpa using stopped

private theorem ends_scanNumber (text : List Char) :
    Ends (scanNumber text).kind (scanNumber text).rest := by
  have whole := not_of_mem_head?_dropWhile Char.isDigit text
  unfold scanNumber
  split
  · next c rest found =>
    split
    · exact not_of_mem_head?_dropWhile Char.isDigit rest
    · next notDigit =>
      rw [found] at whole
      refine ⟨whole, fun d more same => ?_⟩
      obtain ⟨-, rfl, -⟩ : '.' = '.' ∧ c = d ∧ rest = more := by simpa using same
      exact notDigit
  · next noFraction => exact ⟨whole, fun d more same => absurd same (noFraction d more)⟩

theorem ends_of_scan {text : List Char} {found : Scan} (h : scan text = .ok found)
    (closed : ¬ OpensGap text) : Ends found.kind found.rest := by
  unfold scan at h
  split at h
  · cases h
    trivial
  · next c rest =>
    split at h
    · cases h
      have stop := not_of_mem_head?_dropWhile isWordChar (c :: rest)
      rcases ofWord_cases (String.ofList ((c :: rest).takeWhile isWordChar)) with
        same | same | same
      all_goals simpa only [scanWord, same, Ends] using stop
    · split at h
      · cases h
        exact ends_scanNumber _
      · split at h
        · next kind mark =>
          cases h
          -- A slash is the one mark that two of the characters behind it would make a comment.
          by_cases slash : c = '/'
          · subst slash
            obtain rfl : kind = .slash := by simpa [TokenKind.punctuation?] using mark.symm
            intro d head
            obtain ⟨more, rfl⟩ := List.head?_eq_some_iff.1 head
            refine ⟨fun same => ?_, fun same => ?_⟩
            · exact closed (same ▸ .line more)
            · exact closed (same ▸ .block more)
          · unfold TokenKind.punctuation? at mark
            split at mark
            all_goals first | exact absurd rfl slash | cases mark
            all_goals trivial
        · cases h

theorem isStray_of_scan {c d : Char} {rest : List Char} (h : scan (d :: rest) = .error c)
    (closed : ¬ OpensGap (d :: rest)) : c = d ∧ IsStray d := by
  simp only [scan] at h
  split at h
  · cases h
  · next notWord =>
    split at h
    · cases h
    · next notDigit =>
      split at h
      · cases h
      · next notMark =>
        obtain rfl : d = c := Except.error.inj h
        exact ⟨rfl, fun blank => closed (.blank blank), notWord, notDigit, notMark⟩

theorem ends_nil (kind : TokenKind) : Ends kind [] := by
  cases kind <;> simp [Ends]

theorem Spells.kind_unique {kind kind' : TokenKind} {text : List Char} (h : Spells kind text)
    (h' : Spells kind' text) : kind = kind' := by
  have same := (scan_append h (ends_nil kind)).symm.trans (scan_append h' (ends_nil kind'))
  exact congrArg Scan.kind (Except.ok.inj same)

theorem Spells.eq_keyword_iff {kind keyword : TokenKind} {text : List Char}
    (h : Spells kind text) (isKeyword : keyword.category = .keyword) :
    kind = keyword ↔ text = keyword.sampleText.toList := by
  constructor
  · rintro rfl
    cases h with
    | word start more =>
      unfold TokenKind.ofWord at isKeyword ⊢
      cases found : TokenKind.keyword? _ with
      | none =>
        rw [found] at isKeyword
        cases isKeyword
      | some keyword =>
        unfold TokenKind.keyword? at found
        split at found
        all_goals cases found
        all_goals next same => rw [← String.toList_ofList (l := _ :: _), same]; rfl
    | integer | float => cases isKeyword
    | mark mark =>
      unfold TokenKind.punctuation? at mark
      split at mark <;> cases mark <;> cases isKeyword
  · intro same
    have notEnd : keyword ≠ .endOfInput := by
      rintro rfl
      cases isKeyword
    exact h.kind_unique (same ▸ spells_sampleText notEnd)

end Scanning

section Splitting

theorem not_opensGap_of_isStray {c : Char} (h : IsStray c) (rest : List Char) :
    ¬ OpensGap (c :: rest) := by
  intro opens
  cases opens with
  | blank blank => exact h.1 blank
  | line | block => exact absurd h.2.2.2 (by decide)

theorem Cursor.next_of_beginsWithFault {place : Location} {rest : List Char} {error : SyntaxError}
    (h : BeginsWithFault place rest error) :
    ∃ reached, Cursor.next ⟨place, rest⟩ = .error error reached := by
  cases h with
  | @stray c rest stray =>
    have scanned : scan (c :: rest) = .error c := by
      simp [scan, stray.2.1, stray.2.2.1, stray.2.2.2]
    have skipped := skipGap_of_not_opensGap (not_opensGap_of_isStray stray rest) place
    exact ⟨⟨place.advance c, rest⟩, by simp [Cursor.next, skipped, Cursor.lexeme, scanned]⟩
  | unclosed unclosed =>
    rw [Cursor.next, skipGap_of_unclosed unclosed]
    exact ⟨_, rfl⟩

theorem Cursor.results_of_splits {rest text last : List Char} {pieces : List Piece}
    (h : Splits rest text pieces last) (place : Location) :
    Cursor.results ⟨place, text ++ rest⟩ =
      (Piece.tokens place pieces).map .ok ++ Cursor.results ⟨place.after text, rest⟩ := by
  induction h generalizing place with
  | @last gap isGap =>
    rw [Cursor.results, Cursor.next_of_gap isGap, ← Cursor.results]
    rfl
  | @piece gap text last lexeme pieces isGap spelled ends more ih =>
    rw [List.append_assoc, List.append_assoc, Cursor.results, Cursor.next_of_gap isGap,
      ← Cursor.results, Cursor.results_of_token (Cursor.next_of_wellSpelled spelled ends _)
        spelled.ne_endOfInput, ih]
    simp only [Piece.tokens, List.map_cons, List.cons_append, Location.after_append]

/-- Every text is taken apart up to its end or up to the first fault in it. -/
theorem exists_splits (text : List Char) : ∃ front rest pieces last, text = front ++ rest ∧
    Splits rest front pieces last ∧
    (rest = [] ∨ ∀ place, ∃ error, BeginsWithFault place rest error) := by
  -- What is left behind a lexeme is shorter.
  induction hlength : text.length using Nat.strongRecOn generalizing text with
  | ind length ih =>
    subst hlength
    obtain ⟨gap, rest, rfl, isGap, closed | ⟨body, rfl, unclosed⟩⟩ := exists_gap text
    · cases rest with
      | nil => exact ⟨gap, [], [], gap, rfl, .last isGap, .inl rfl⟩
      | cons c rest =>
        cases scanned : scan (c :: rest) with
        | error d =>
          have stray := (isStray_of_scan scanned closed).2
          exact ⟨gap, c :: rest, [], gap, rfl, .last isGap, .inr fun place => ⟨_, .stray stray⟩⟩
        | ok found =>
          have whole := spelling_append_rest_of_scan scanned
          have nonempty := List.length_pos_iff.2 (spelling_ne_nil_of_scan scanned)
          have spelled : (⟨found.kind, String.ofList found.spelling⟩ : Lexeme).WellSpelled := by
            simpa [Lexeme.WellSpelled] using spells_of_scan scanned (by simp)
          have ends := ends_of_scan scanned closed
          obtain ⟨front, rest', pieces, last, same, more, stops⟩ :=
            ih found.rest.length (by rw [← whole]; simp; omega) found.rest rfl
          rw [same] at whole ends
          rw [← whole, ← String.toList_ofList (l := found.spelling)] at isGap ⊢
          exact ⟨_, rest', _, last, by simp, .piece isGap spelled ends more, stops⟩
    · exact ⟨gap, _, [], gap, rfl, .last isGap, .inr fun place => ⟨_, .unclosed unclosed⟩⟩

theorem Spells.ne_nil {kind : TokenKind} {text : List Char} (h : Spells kind text) : text ≠ [] := by
  cases h with
  | word | mark => exact List.cons_ne_nil _ _
  | integer nonempty => exact nonempty
  | float => simp

private theorem first_piece_unique {gap gap' behind behind' : List Char} {lexeme lexeme' : Lexeme}
    (isGap : Gap gap (lexeme.text.toList ++ behind)) (spelled : lexeme.WellSpelled)
    (ends : Ends lexeme.kind behind) (isGap' : Gap gap' (lexeme'.text.toList ++ behind'))
    (spelled' : lexeme'.WellSpelled) (ends' : Ends lexeme'.kind behind')
    (same : gap ++ (lexeme.text.toList ++ behind) = gap' ++ (lexeme'.text.toList ++ behind')) :
    gap = gap' ∧ lexeme = lexeme' ∧ behind = behind' := by
  have skipped := skipGap_of_gap isGap .start
  have skipped' := skipGap_of_gap isGap' .start
  rw [skipGap_of_not_opensGap (not_opensGap_of_spells spelled ends)] at skipped
  rw [skipGap_of_not_opensGap (not_opensGap_of_spells spelled' ends'), ← same, skipped]
    at skipped'
  have rests : lexeme.text.toList ++ behind = lexeme'.text.toList ++ behind' := by
    simpa using congrArg (fun result => match result with
      | EStateM.Result.ok _ reached => reached.rest
      | EStateM.Result.error _ reached => reached.rest) skipped'
  have scanned := scan_append spelled ends
  rw [rests, scan_append spelled' ends'] at scanned
  obtain ⟨kinds, texts, behinds⟩ : lexeme'.kind = lexeme.kind ∧
      lexeme'.text.toList = lexeme.text.toList ∧ behind' = behind := by
    simpa using scanned
  refine ⟨List.append_cancel_right (rests ▸ same), ?_, behinds.symm⟩
  cases lexeme
  cases lexeme'
  rw [Lexeme.mk.injEq]
  exact ⟨kinds.symm, (String.toList_inj.1 texts).symm⟩

private theorem not_gap_of_first_piece {gap behind rest : List Char} {lexeme : Lexeme}
    (isGap : Gap gap (lexeme.text.toList ++ (behind ++ rest))) (spelled : lexeme.WellSpelled)
    (ends : Ends lexeme.kind (behind ++ rest)) :
    ¬ Gap (gap ++ (lexeme.text.toList ++ behind)) rest := by
  intro whole
  have skipped := skipGap_of_gap isGap .start
  rw [skipGap_of_not_opensGap (not_opensGap_of_spells spelled ends)] at skipped
  have skipped' := skipGap_of_gap whole .start
  rw [List.append_assoc, List.append_assoc, skipped] at skipped'
  have shorter := rest_length_le_of_skipGap skipped'.symm
  have := List.length_pos_iff.2 spelled.ne_nil
  simp only [List.length_append] at shorter
  omega

/-- A text is taken apart in one way. -/
theorem Splits.unique {rest text last last' : List Char} {pieces pieces' : List Piece}
    (h : Splits rest text pieces last) (h' : Splits rest text pieces' last') :
    pieces = pieces' ∧ last = last' := by
  induction h generalizing pieces' with
  | last isGap =>
    cases h' with
    | last isGap' => exact ⟨rfl, rfl⟩
    | piece isGap' spelled' ends' more' =>
      exact absurd isGap (not_gap_of_first_piece isGap' spelled' ends')
  | @piece gap text last lexeme pieces isGap spelled ends more ih =>
    generalize whole : gap ++ (lexeme.text.toList ++ text) = all at h'
    cases h' with
    | last isGap' => exact absurd (whole ▸ isGap') (not_gap_of_first_piece isGap spelled ends)
    | piece isGap' spelled' ends' more' =>
      have same := congrArg (· ++ rest) whole
      simp only [List.append_assoc] at same
      obtain ⟨rfl, rfl, behind⟩ :=
        first_piece_unique isGap spelled ends isGap' spelled' ends' same
      obtain ⟨rfl, rfl⟩ := ih (List.append_cancel_right behind ▸ more')
      exact ⟨rfl, rfl⟩

theorem Splits.tokens_spelled {rest text last : List Char} {pieces : List Piece}
    (h : Splits rest text pieces last) (before : List Char) {token : Token}
    (member : token ∈ Piece.tokens (.after .start before) pieces) :
    token.WellSpelled ∧ token.span.slice? (before ++ (text ++ rest)) = some token.text.toList := by
  induction h generalizing before with
  | last => cases member
  | @piece gap text last lexeme pieces isGap spelled ends more ih =>
    simp only [Piece.tokens, List.mem_cons, ← Location.after_append] at member
    rcases member with rfl | member
    · refine ⟨spelled, Span.slice?_eq_some_iff.2 ⟨before ++ gap, text ++ rest, ?_, ?_, ?_⟩⟩
      · simp [Lexeme.placed]
      · simp [Lexeme.placed, Location.start]
      · simp [Lexeme.placed, Location.start]
    · obtain ⟨spelled', covers⟩ := ih _ member
      exact ⟨spelled', by simpa using covers⟩

end Splitting

section Tokens

theorem tokenize_of_splits {source : String} {pieces : List Piece} {last : List Char}
    (h : Splits [] source.toList pieces last) :
    tokenize source =
      .ok (Piece.tokens .start pieces ++ [.endAt (Location.start.after source.toList)]) := by
  have results := Cursor.results_of_splits h .start
  have stop (place : Location) : Cursor.next ⟨place, []⟩ = .ok (.endAt place) ⟨place, []⟩ := rfl
  rw [List.append_nil, Cursor.results_of_end (stop _) rfl] at results
  rw [tokenize_eq_ok_iff, Cursor.ofText, results, List.map_append]
  rfl

theorem tokenize_of_splits_fault {source : String} {front rest last : List Char}
    {pieces : List Piece} {error : SyntaxError} (whole : source.toList = front ++ rest)
    (h : Splits rest front pieces last)
    (faulty : BeginsWithFault (Location.start.after front) rest error) :
    tokenize source = .error error := by
  have results := Cursor.results_of_splits h .start
  obtain ⟨reached, stops⟩ := Cursor.next_of_beginsWithFault faulty
  rw [Cursor.results_of_error stops, ← whole] at results
  exact tokenize_eq_error results

theorem splits_cases (text : List Char) : (∃ pieces last, Splits [] text pieces last) ∨
    ∃ front rest pieces last error, text = front ++ rest ∧ Splits rest front pieces last ∧
      BeginsWithFault (Location.start.after front) rest error := by
  obtain ⟨front, rest, pieces, last, rfl, splits, rfl | faulty⟩ := exists_splits text
  · rw [List.append_nil]
    exact .inl ⟨pieces, last, splits⟩
  · obtain ⟨error, faulty⟩ := faulty (Location.start.after front)
    exact .inr ⟨front, rest, pieces, last, error, rfl, splits, faulty⟩

theorem Splits.tokens_cover {source : String} {pieces : List Piece} {last : List Char}
    (h : Splits [] source.toList pieces last) {token : Token}
    (member : token ∈ Piece.tokens .start pieces ++ [.endAt (Location.start.after source.toList)]) :
    token.span.slice? source.toList = some token.text.toList ∧
      (token.kind = .func ↔ token.text = "func") ∧ (token.kind = .var ↔ token.text = "var") := by
  rcases List.mem_append.1 member with member | member
  · obtain ⟨spelled, covers⟩ := h.tokens_spelled [] member
    refine ⟨by simpa using covers, ?_, ?_⟩
    · exact (Spells.eq_keyword_iff spelled rfl).trans String.toList_inj
    · exact (Spells.eq_keyword_iff spelled rfl).trans String.toList_inj
  · obtain rfl := List.mem_singleton.1 member
    refine ⟨Span.slice?_eq_some_iff.2 ⟨source.toList, [], ?_, ?_, ?_⟩, ?_, ?_⟩
    all_goals simp [Token.endAt, Span.point, Location.start]

/-- Reading a text for its tokens is taking it apart: the tokens are those of the one way in which
a text falls into gaps and longest lexemes, each covering the text it is spelled as, with the empty
end of the text behind them. A text that does not fall into gaps and lexemes is refused where the
first fault stands behind a part that does. -/
theorem tokenize_iff_splits (source : String) :
    (∀ tokens, tokenize source = .ok tokens ↔
      ∃ pieces last, Splits [] source.toList pieces last ∧
        tokens = Piece.tokens .start pieces ++ [.endAt (Location.start.after source.toList)]) ∧
    (∀ pieces pieces' last last', Splits [] source.toList pieces last →
      Splits [] source.toList pieces' last' → pieces = pieces' ∧ last = last') ∧
    (∀ tokens, tokenize source = .ok tokens → ∀ token ∈ tokens,
      token.span.slice? source.toList = some token.text.toList ∧
      (token.kind = .func ↔ token.text = "func") ∧ (token.kind = .var ↔ token.text = "var")) ∧
    (Location.start.after source.toList).offset = source.utf8ByteSize ∧
    (∀ error, tokenize source = .error error ↔
      ∃ front rest pieces last, source.toList = front ++ rest ∧ Splits rest front pieces last ∧
        BeginsWithFault (Location.start.after front) rest error) := by
  have accepts (tokens : List Token) : tokenize source = .ok tokens ↔
      ∃ pieces last, Splits [] source.toList pieces last ∧
        tokens = Piece.tokens .start pieces ++ [.endAt (Location.start.after source.toList)] := by
    constructor
    · intro lexed
      rcases splits_cases source.toList with
        ⟨pieces, last, splits⟩ | ⟨front, rest, pieces, last, error, whole, splits, faulty⟩
      · exact ⟨pieces, last, splits, Except.ok.inj (lexed.symm.trans (tokenize_of_splits splits))⟩
      · cases lexed.symm.trans (tokenize_of_splits_fault whole splits faulty)
    · rintro ⟨pieces, last, splits, rfl⟩
      exact tokenize_of_splits splits
  refine ⟨accepts, fun _ _ _ _ h h' => h.unique h', fun tokens lexed token member => ?_, ?_,
    fun error => ⟨fun refused => ?_, ?_⟩⟩
  · obtain ⟨pieces, last, splits, rfl⟩ := (accepts tokens).1 lexed
    exact splits.tokens_cover member
  · simp [Location.start, byteLength_toList]
  · rcases splits_cases source.toList with
      ⟨pieces, last, splits⟩ | ⟨front, rest, pieces, last, error', whole, splits, faulty⟩
    · cases refused.symm.trans (tokenize_of_splits splits)
    · obtain rfl : error = error' :=
        Except.error.inj (refused.symm.trans (tokenize_of_splits_fault whole splits faulty))
      exact ⟨front, rest, pieces, last, whole, splits, faulty⟩
  · rintro ⟨front, rest, pieces, last, whole, splits, faulty⟩
    exact tokenize_of_splits_fault whole splits faulty

/-- A slash behind a closed comment opens none. -/
theorem tokenize_iff_splits_slash :
    Splits [] "a/**//".toList [⟨[], .identifier, "a"⟩, ⟨['/', '*', '*', '/'], .slash, "/"⟩] [] ∧
      tokenize "a/**//" = .ok [⟨⟨.identifier, "a"⟩, ⟨⟨0, 1, 1⟩, ⟨1, 1, 2⟩⟩⟩,
        ⟨⟨.slash, "/"⟩, ⟨⟨5, 1, 6⟩, ⟨6, 1, 7⟩⟩⟩, ⟨⟨.endOfInput, ""⟩, ⟨⟨6, 1, 7⟩, ⟨6, 1, 7⟩⟩⟩] := by
  have slash : Lexeme.WellSpelled ⟨.slash, "/"⟩ := @Spells.mark '/' _ rfl
  have name : Lexeme.WellSpelled ⟨.identifier, "a"⟩ := @Spells.word 'a' [] (by decide) (by simp)
  have comment : Gap ['/', '*', '*', '/'] ['/'] := @Gap.block [] [] _ (by simp) .empty
  have ends : Ends .identifier ['/', '*', '*', '/', '/'] := by
    simp only [Ends, List.head?_cons, Option.mem_def, Option.some.injEq, forall_eq']
    decide
  have splits := Splits.piece .empty name ends
    (.piece comment slash (ends_nil .slash) (.last .empty))
  exact ⟨splits, ((tokenize_iff_splits _).1 _).2 ⟨_, _, splits, rfl⟩⟩

end Tokens

end SableSyntax
