/- SableSyntax/Proofs/Lexing/Fragments
   digest: A stretch of whole tokens, cut out of its text, falls into the same lexemes alone. -/

import SableSyntax.Proofs.Grammar.Extents
import SableSyntax.Proofs.Lexing.Splitting

set_option autoImplicit false
set_option relaxedAutoImplicit false

namespace SableSyntax

section Boundaries

theorem Gap.of_head?_eq {gap rest rest' : List Char} (h : Gap gap rest)
    (same : rest.head? = rest'.head?) : Gap gap rest' := by
  induction h with
  | empty => exact .empty
  | blank blank _ ih => exact .blank blank (ih same)
  | line inLine ends _ ih =>
    refine .line inLine ?_ (ih same)
    simpa only [List.head?_append, same] using ends
  | block first _ ih => exact .block first (ih same)

theorem Ends.of_append {kind : TokenKind} {text rest : List Char} (h : Ends kind (text ++ rest)) :
    Ends kind text := by
  cases text with
  | nil => exact ends_nil kind
  | cons c text =>
    cases kind with
    | integer =>
      refine ⟨by simpa using h.1, fun d more same => h.2 d (more ++ rest) ?_⟩
      rw [same]
      rfl
    | _ => exact h

end Boundaries

namespace Splits

variable {rest text last : List Char} {pieces pieces' : List Piece}

theorem of_tokens_append {place : Location} {first second : List Token}
    (h : Splits rest text pieces last) (same : Piece.tokens place pieces = first ++ second) :
    ∃ front behind pieces' pieces'', text = front ++ behind ∧
      Splits (behind ++ rest) front pieces' [] ∧ Splits rest behind pieces'' last ∧
      Piece.tokens place pieces' = first ∧ Piece.tokens (place.after front) pieces'' = second := by
  induction first generalizing place text pieces with
  | nil => exact ⟨[], text, [], pieces, rfl, .last .empty, h, rfl, same⟩
  | cons token first ih =>
    cases h with
    | last => cases same
    | @piece gap text _ lexeme pieces isGap spelled ends more =>
      obtain ⟨rfl, tail⟩ := List.cons.inj same
      obtain ⟨front, behind, pieces', pieces'', rfl, splits, splits', rfl, rfl⟩ := ih more tail
      rw [List.append_assoc] at isGap ends
      refine ⟨gap ++ (lexeme.text.toList ++ front), behind, ⟨gap, lexeme⟩ :: pieces', pieces'',
        by simp, .piece isGap spelled ends splits, splits', rfl, ?_⟩
      simp only [Location.after_append]

theorem alone (h : Splits rest text pieces []) : Splits [] text pieces [] := by
  generalize none : ([] : List Char) = last at h
  induction h with
  | last => exact none ▸ .last .empty
  | @piece gap text last lexeme pieces isGap spelled ends more ih =>
    subst none
    refine .piece (isGap.of_head?_eq ?_) spelled (by simpa using ends.of_append) (ih rfl)
    -- The character behind the gap is that of the lexeme.
    obtain ⟨c, more, same⟩ := List.exists_cons_of_ne_nil spelled.ne_nil
    rw [same]
    rfl

theorem stop_tokens (h : Splits rest text pieces []) (place : Location) :
    ((Piece.tokens place pieces).getLast?.map (·.span.stop)).getD place = place.after text := by
  generalize none : ([] : List Char) = last at h
  induction h generalizing place with
  | last =>
    subst none
    rfl
  | @piece gap text last lexeme pieces isGap spelled ends more ih =>
    have behind := ih ((place.after gap).after lexeme.text.toList) none
    rw [Location.after_append, Location.after_append, ← behind, Piece.tokens, List.getLast?_cons]
    cases (Piece.tokens ((place.after gap).after lexeme.text.toList) pieces).getLast? <;> rfl

end Splits

theorem Piece.map_toLexeme_tokens (place : Location) (pieces : List Piece) :
    (Piece.tokens place pieces).map Token.toLexeme = pieces.map Piece.lexeme := by
  induction pieces generalizing place with
  | nil => rfl
  | cons piece pieces ih => simp only [Piece.tokens, List.map_cons, ih, Lexeme.placed]

theorem exists_fragment {source : String} {before used behind : List Token} {stop : Token}
    {span : Span} (lexed : tokenize source = .ok (before ++ (used ++ behind) ++ [stop]))
    (extent : span.Extends used) : ∃ text tokens stop', span.slice? source.toList = some text ∧
      tokenize (.ofList text) = .ok (tokens ++ [stop']) ∧
      tokens.map Token.toLexeme = used.map Token.toLexeme := by
  rcases splits_cases source.toList with
    ⟨pieces, last, splits⟩ | ⟨front, rest, pieces, last, error, whole, splits, faulty⟩
  · have same := Except.ok.inj ((tokenize_of_splits splits).symm.trans lexed)
    obtain ⟨front, text, _, pieces, whole, -, splits, -, same⟩ :=
      splits.of_tokens_append (List.append_inj' same rfl).1
    obtain ⟨covered, text', pieces, _, rfl, splits, -, rfl, -⟩ := splits.of_tokens_append same
    have stops := splits.stop_tokens (Location.start.after front)
    cases splits with
    | last => cases extent.starts
    | @piece gap text _ lexeme pieces isGap spelled ends more =>
      -- Without the gap in front of it the stretch starts with its first lexeme.
      have alone := (@Splits.piece _ [] _ _ _ _ .empty spelled ends more).alone
      have starts : (Location.start.after front).after gap = span.start :=
        Option.some.inj extent.starts
      have stops : span.stop = (Location.start.after front).after
          (gap ++ (lexeme.text.toList ++ text)) := by
        rwa [extent.stops] at stops
      refine ⟨lexeme.text.toList ++ text, _, _, ?_, tokenize_of_splits (by simpa using alone), ?_⟩
      · refine Span.slice?_eq_some_iff.2 ⟨front ++ gap, text', by simp [whole], ?_, ?_⟩
        · simp [← starts, Location.start]
        · simp [stops, Location.start, Nat.add_assoc]
      · rw [Piece.map_toLexeme_tokens, Piece.map_toLexeme_tokens]
        rfl
  · cases lexed.symm.trans (tokenize_of_splits_fault whole splits faulty)

end SableSyntax
