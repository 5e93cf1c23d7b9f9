/- SableSyntax/Proofs/Lexing/Marks
   digest: How often punctuation marks stand in a text and among its tokens. -/

import SableSyntax.Proofs.Lexing.Splitting

set_option autoImplicit false
set_option relaxedAutoImplicit false

namespace SableSyntax

section Spelling

variable {c : Char} {kind mark : TokenKind} {text : List Char}

private theorem not_isWordChar_of_punctuation? (h : TokenKind.punctuation? c = some mark) :
    isWordChar c = false ∧ c.isDigit = false ∧ c ≠ '.' := by
  unfold TokenKind.punctuation? at h
  split at h <;> cases h <;> decide

theorem sampleText_of_punctuation? (h : TokenKind.punctuation? c = some mark) :
    mark.category = .punctuation ∧ mark.sampleText.toList = [c] := by
  unfold TokenKind.punctuation? at h
  split at h <;> cases h <;> exact ⟨rfl, rfl⟩

theorem Spells.eq_sampleText (spelled : Spells kind text)
    (plain : kind.category = .keyword ∨ kind.category = .punctuation) :
    text = kind.sampleText.toList := by
  rcases plain with isKeyword | isMark
  · exact (spelled.eq_keyword_iff isKeyword).1 rfl
  · cases spelled with
    | word =>
      exfalso
      unfold TokenKind.ofWord TokenKind.keyword? at isMark
      split at isMark <;> cases isMark
    | integer | float => cases isMark
    | mark h => exact (sampleText_of_punctuation? h).2.symm

theorem Spells.count_mark (spelled : Spells kind text)
    (h : TokenKind.punctuation? c = some mark) : text.count c = [kind].count mark := by
  obtain ⟨isMark, sample⟩ := sampleText_of_punctuation? h
  by_cases same : kind = mark
  · subst same
    rw [spelled.eq_sampleText (.inr isMark), sample, List.count_singleton_self,
      List.count_singleton_self]
  · rw [List.count_eq_zero.2 (fun member => same (List.mem_singleton.1 member).symm)]
    refine List.count_eq_zero.2 fun member => ?_
    obtain ⟨notWord, notDigit, notPoint⟩ := not_isWordChar_of_punctuation? h
    cases spelled with
    | @word d text start more =>
      have all : ∀ e ∈ d :: text, isWordChar e :=
        List.forall_mem_cons.2 ⟨isWordChar_of_isWordStart start, more⟩
      exact Bool.false_ne_true (notWord.symm.trans (all c member))
    | integer nonempty all => exact Bool.false_ne_true (notDigit.symm.trans (all c member))
    | float nonempty all nonempty' all' =>
      rcases List.mem_append.1 member with whole | rest
      · exact Bool.false_ne_true (notDigit.symm.trans (all c whole))
      · rcases List.mem_cons.1 rest with point | fraction
        · exact notPoint point
        · exact Bool.false_ne_true (notDigit.symm.trans (all' c fraction))
    | mark h' =>
      rw [← List.mem_singleton.1 member, h, Option.some.injEq] at h'
      exact same h'.symm

end Spelling

theorem Gap.isBlank {gap rest : List Char} (h : Gap gap rest) (noSlash : '/' ∉ gap) :
    ∀ c ∈ gap, SableSyntax.isBlank c := by
  induction h with
  | empty => exact List.forall_mem_nil _
  | blank blank more ih =>
    simp only [List.mem_cons, not_or] at noSlash
    exact List.forall_mem_cons.2 ⟨blank, ih noSlash.2⟩
  | line | block => exact absurd List.mem_cons_self noSlash

def gapsOf (pieces : List Piece) (last : List Char) : List Char :=
  pieces.flatMap Piece.gap ++ last

theorem gapsOf_cons (piece : Piece) (pieces : List Piece) (last : List Char) :
    gapsOf (piece :: pieces) last = piece.gap ++ gapsOf pieces last := by
  rw [gapsOf, List.flatMap_cons, List.append_assoc, gapsOf]

theorem Splits.count_mark {rest text last : List Char} {pieces : List Piece}
    (h : Splits rest text pieces last) {c : Char} {mark : TokenKind}
    (isMark : TokenKind.punctuation? c = some mark) :
    text.count c = (gapsOf pieces last).count c + (pieces.map (·.lexeme.kind)).count mark := by
  induction h with
  | last => simp [gapsOf]
  | @piece gap text last lexeme pieces isGap spelled ends more ih =>
    have first := Spells.count_mark spelled isMark
    have kinds : (⟨gap, lexeme⟩ :: pieces).map (·.lexeme.kind) =
        [lexeme.kind] ++ pieces.map (·.lexeme.kind) := rfl
    rw [gapsOf_cons, kinds]
    simp only [List.count_append, first, ih]
    omega

theorem Splits.isBlank_of_no_slash {rest text last : List Char} {pieces : List Piece}
    (h : Splits rest text pieces last) (noSlash : '/' ∉ gapsOf pieces last) :
    ∀ c ∈ gapsOf pieces last, isBlank c := by
  induction h with
  | last isGap => exact isGap.isBlank noSlash
  | piece isGap spelled ends more ih =>
    rw [gapsOf_cons, List.mem_append, not_or] at noSlash
    rw [gapsOf_cons, List.forall_mem_append]
    exact ⟨isGap.isBlank noSlash.1, ih noSlash.2⟩

theorem Piece.map_kind_tokens (place : Location) (pieces : List Piece) :
    (Piece.tokens place pieces).map (·.kind) = pieces.map (·.lexeme.kind) := by
  induction pieces generalizing place with
  | nil => rfl
  | cons piece pieces ih => rw [tokens, List.map_cons, List.map_cons, ih, Lexeme.placed]

theorem count_mark_of_tokenize {source : String} {tokens : List Token} {stop : Token}
    (lexed : tokenize source = .ok (tokens ++ [stop]))
    (slashes : source.toList.count '/' = (tokens.map (·.kind)).count .slash) {c : Char}
    {mark : TokenKind} (isMark : TokenKind.punctuation? c = some mark) :
    source.toList.count c = (tokens.map (·.kind)).count mark := by
  rcases splits_cases source.toList with
    ⟨pieces, last, splits⟩ | ⟨front, rest, pieces, last, error, whole, splits, faulty⟩
  · have same := Except.ok.inj (lexed.symm.trans (tokenize_of_splits splits))
    obtain ⟨rfl, -⟩ := List.append_inj' same rfl
    rw [Piece.map_kind_tokens] at slashes ⊢
    -- The slashes are all accounted for by tokens, so that the gaps are blank.
    have all := splits.count_mark (c := '/') rfl
    have noSlash : '/' ∉ gapsOf pieces last := List.count_eq_zero.1 (by omega)
    have noMark : c ∉ gapsOf pieces last := fun member =>
      absurd (splits.isBlank_of_no_slash noSlash c member)
        (Bool.eq_false_iff.1 (not_isBlank_of_punctuation? isMark))
    rw [splits.count_mark isMark, List.count_eq_zero.2 noMark, Nat.zero_add]
  · cases lexed.symm.trans (tokenize_of_splits_fault whole splits faulty)

end SableSyntax
