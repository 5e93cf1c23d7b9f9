/- SableSyntax/Proofs/Printing/Tokens
   digest: The canonical text of a program has the tokens that the program was read from. -/

import Mathlib.Data.List.Forall2
import SableSyntax.Proofs.Grammar.WellFormed
import SableSyntax.Proofs.Parsing.Acceptance
import SableSyntax.Proofs.Printing.Trees

set_option autoImplicit false
set_option relaxedAutoImplicit false

namespace SableSyntax

open Grammar

/-- Two lexemes are of one kind and have one text, or denote one number if they are numbers. -/
def Lexeme.Agrees (a b : Lexeme) : Prop :=
  a.kind = b.kind ∧
    match a.kind with
    | .integer => ∃ value, integerValue? a.text.toList = some value ∧
        integerValue? b.text.toList = some value
    | .float => ∃ value, floatValue? a.text.toList = some value ∧
        floatValue? b.text.toList = some value
    | _ => a.text = b.text

def TokensAgree (tokens tokens' : List Token) : Prop :=
  List.Forall₂ (fun a b => a.Agrees b.toLexeme) tokens tokens'

section Lexemes

variable {a b : Lexeme}

theorem TokenKind.category_cases (kind : TokenKind) :
    kind = .integer ∨ kind = .float ∨ kind = .identifier ∨ kind = .endOfInput ∨
      kind.category = .keyword ∨ kind.category = .punctuation := by
  cases kind <;> simp [category]

theorem Lexeme.Matches.agrees (same : a.Matches b) (spelled : a.WellSpelled)
    (spelled' : b.WellSpelled) (inRange : a.InRange) : a.Agrees b := by
  refine ⟨same.kind_eq, ?_⟩
  split
  · next kind =>
    simp only [InRange, kind] at inRange
    have digits := same.digitsValue kind
    exact ⟨_, integerValue?_eq_some_iff.2 ⟨inRange, rfl⟩,
      integerValue?_eq_some_iff.2 ⟨digits ▸ inRange, digits ▸ rfl⟩⟩
  · next kind =>
    simp only [InRange, kind] at inRange
    have reading := same.floatReading kind
    exact ⟨_, floatValue?_eq_some_iff.2 ⟨inRange, rfl⟩,
      floatValue?_eq_some_iff.2 ⟨reading ▸ inRange, reading.symm⟩⟩
  · next notInteger notFloat =>
    rcases a.kind.category_cases with integer | float | name | atEnd | plain
    · exact absurd integer notInteger
    · exact absurd float notFloat
    · exact same.text name
    · exact absurd atEnd (Spells.ne_endOfInput spelled)
    · have written := Spells.eq_sampleText spelled plain
      have written' := Spells.eq_sampleText spelled' (same.kind_eq ▸ plain)
      rw [← same.kind_eq] at written'
      exact String.toList_inj.1 (written.trans written'.symm)

theorem Lexeme.Agrees.matches (h : a.Agrees b) : a.Matches b := by
  obtain ⟨kinds, texts⟩ := h
  unfold Matches meaning
  rw [← kinds]
  split at texts
  · next kind =>
    obtain ⟨value, denotes, denotes'⟩ := texts
    obtain ⟨inRange, same⟩ := integerValue?_eq_some_iff.1 denotes
    obtain ⟨inRange', same'⟩ := integerValue?_eq_some_iff.1 denotes'
    have bound := Nat.lt_of_le_pred (by decide : 0 < Nat.pow 2 63) inRange
    have bound' := Nat.lt_of_le_pred (by decide : 0 < Nat.pow 2 63) inRange'
    have values := congrArg Int64.toInt (same.trans same'.symm)
    rw [Int64.toInt_ofNat_of_lt bound, Int64.toInt_ofNat_of_lt bound', Int.ofNat_inj] at values
    simp only [kind, values]
  · next kind =>
    obtain ⟨value, denotes, denotes'⟩ := texts
    simp only [kind, (floatValue?_eq_some_iff.1 denotes).2, (floatValue?_eq_some_iff.1 denotes').2]
  · rw [texts]

end Lexemes

section Tokens

variable {tokens tokens' : List Token}

theorem Grammar.Alike.tokensAgree (alike : Alike tokens tokens')
    (spelled : ∀ token ∈ tokens, token.WellSpelled)
    (spelled' : ∀ token ∈ tokens', token.WellSpelled) (inRange : InRange tokens) :
    TokensAgree tokens tokens' := by
  induction tokens generalizing tokens' with
  | nil =>
    rw [alike.nil_left]
    exact .nil
  | cons token tokens ih =>
    obtain ⟨token', rest, rfl, same, alike⟩ := alike.cons_left
    simp only [List.forall_mem_cons] at spelled spelled'
    simp only [InRange.cons_iff] at inRange
    exact .cons (same.agrees spelled.1 spelled'.1 inRange.1)
      (ih alike spelled.2 spelled'.2 inRange.2)

theorem TokensAgree.alike (h : TokensAgree tokens tokens') : Alike tokens tokens' := by
  induction h with
  | nil => rfl
  | cons agrees _ ih =>
    rw [Alike, List.map_cons, List.map_cons, ih]
    exact congrArg (· :: _) agrees.matches

theorem wellSpelled_of_tokenize {source : String} {stop : Token}
    (lexed : tokenize source = .ok (tokens ++ [stop])) : ∀ token ∈ tokens, token.WellSpelled := by
  have results := tokenize_eq_ok_iff.1 lexed
  rw [List.map_append] at results
  exact wellSpelled_of_results results

theorem tokensAgree_iff_alike {source source' : String} {stop stop' : Token}
    (lexed : tokenize source = .ok (tokens ++ [stop]))
    (lexed' : tokenize source' = .ok (tokens' ++ [stop'])) (inRange : InRange tokens) :
    TokensAgree (tokens ++ [stop]) (tokens' ++ [stop']) ↔ Alike tokens tokens' := by
  constructor
  · intro agree
    have alike := agree.alike
    rw [Alike, List.map_append, List.map_append] at alike
    exact (List.append_inj' alike rfl).1
  · intro alike
    have stops : stop.Agrees stop'.toLexeme := by
      rw [(end_of_tokenize lexed).1, (end_of_tokenize lexed').1]
      exact ⟨rfl, rfl⟩
    exact List.rel_append (alike.tokensAgree (wellSpelled_of_tokenize lexed)
      (wellSpelled_of_tokenize lexed') inRange) (.cons stops .nil)

end Tokens

section Programs

/-- The canonical text of a program that was derived has tokens that mean the same, and derive the
same program apart from places. -/
theorem exists_tokens_of_text {stop : Token} {tokens : List Token} {program : Program}
    (derived : Parser.ProgramUpTo stop tokens program)
    (spelled : ∀ token ∈ tokens, token.WellSpelled) :
    ∃ tokens' stop' read, tokenize program.text = .ok (tokens' ++ [stop']) ∧
      Alike tokens tokens' ∧ Parser.ProgramUpTo stop' tokens' read ∧
      read.unplaced = program.unplaced := by
  have writes := programRule_prints (readable_prints maxNesting .assignment) stop derived spelled
  obtain ⟨lexemes, meaning, lexes⟩ := writes.lexes
  obtain ⟨tokens', stop', lexed, lexemes', -⟩ := tokenize_of_lexes (lexes [] trivial)
  have alike : Alike tokens tokens' := by
    have same := congrArg (List.map Lexeme.meaning) lexemes'
    rw [List.map_map, meaning] at same
    exact same.symm
  obtain ⟨read, derived', same⟩ :=
    programRule_transports (readable_transports maxNesting .assignment) derived alike stop'
  exact ⟨tokens', stop', read, lexed, alike, derived', same⟩

theorem inRange_of_programUpTo {stop : Token} {tokens : List Token} {program : Program}
    (derived : Parser.ProgramUpTo stop tokens program) : InRange tokens :=
  (((readable_restricts maxNesting .assignment).programRule stop).1 derived).2.1

theorem isWellFormed_of_parse {source : String} {program : Program}
    (accepted : parse source = .ok program) : program.isWellFormed := by
  obtain ⟨tokens, stop, lexed, derived⟩ := parse_eq_ok_iff.1 accepted
  exact programRule_ensures .assignment stop derived (wellSpelled_of_tokenize lexed)

/-- The canonical text of a program has the tokens that the program was read from, but for the
spelling of numbers. Hence two texts are read as equal programs if and only if their tokens agree
so far: reading forgets nothing else but what stands between tokens. -/
theorem canonical_text_keeps_tokens {source : String} {program : Program}
    (accepted : parse source = .ok program) :
    (∃ tokens tokens', tokenize source = .ok tokens ∧ tokenize program.text = .ok tokens' ∧
      TokensAgree tokens tokens') ∧
    ∀ source' program', parse source' = .ok program' →
      ((program == program') = true ↔ ∃ tokens tokens', tokenize source = .ok tokens ∧
        tokenize source' = .ok tokens' ∧ TokensAgree tokens tokens') := by
  obtain ⟨tokens, stop, lexed, derived⟩ := parse_eq_ok_iff.1 accepted
  have inRange := inRange_of_programUpTo derived
  obtain ⟨written, last, read, lexedText, alikeText, -, -⟩ :=
    exists_tokens_of_text derived (wellSpelled_of_tokenize lexed)
  refine ⟨⟨_, _, lexed, lexedText, (tokensAgree_iff_alike lexed lexedText inRange).2 alikeText⟩,
    fun source' program' accepted' => ?_⟩
  obtain ⟨tokens', stop', lexed', derived'⟩ := parse_eq_ok_iff.1 accepted'
  rw [Program.beq_iff_unplaced_eq (isWellFormed_of_parse accepted)
    (isWellFormed_of_parse accepted')]
  constructor
  · intro same
    -- Both programs have one canonical text, and the tokens of both sources agree with its tokens.
    have sameText : program.text = program'.text := by
      rw [← program.text_unplaced, same, program'.text_unplaced]
    obtain ⟨written', last', read', lexedText', alikeText', -, -⟩ :=
      exists_tokens_of_text derived' (wellSpelled_of_tokenize lexed')
    rw [sameText, lexedText'] at lexedText
    obtain ⟨rfl, -⟩ := List.append_inj' (Except.ok.inj lexedText) rfl
    have alike : Alike tokens tokens' := Eq.trans alikeText alikeText'.symm
    exact ⟨_, _, lexed, lexed', (tokensAgree_iff_alike lexed lexed' inRange).2 alike⟩
  · rintro ⟨all, all', lexedAll, lexedAll', agree⟩
    obtain rfl := Except.ok.inj (lexed.symm.trans lexedAll)
    obtain rfl := Except.ok.inj (lexed'.symm.trans lexedAll')
    have alike := (tokensAgree_iff_alike lexed lexed' inRange).1 agree
    obtain ⟨again, derivedAgain, same⟩ :=
      programRule_transports (readable_transports maxNesting .assignment) derived alike stop'
    have accepted'' := parse_eq_ok_iff.2 ⟨tokens', stop', lexed', derivedAgain⟩
    obtain rfl := Except.ok.inj (accepted'.symm.trans accepted'')
    exact same.symm

/-- Zeros before a number are dropped. -/
theorem canonical_text_keeps_tokens_zeros : ∃ program,
    parse "func f():i8\x7b007;\x7d" = .ok program ∧
      program.text = "func f(): i8 \x7b\n    7;\n\x7d\n" ∧
      ∃ tokens tokens', tokenize "func f():i8\x7b007;\x7d" = .ok tokens ∧
        tokenize program.text = .ok tokens' ∧ TokensAgree tokens tokens' := by
  have accepted : parse "func f():i8\x7b007;\x7d" = .ok ⟨[⟨⟨"f", ⟨⟨5, 1, 6⟩, ⟨6, 1, 7⟩⟩⟩, [],
      ⟨.primitive .i8, 0, ⟨⟨9, 1, 10⟩, ⟨11, 1, 12⟩⟩⟩,
      some ⟨[.expression (.integer 7 ⟨⟨12, 1, 13⟩, ⟨15, 1, 16⟩⟩) ⟨⟨12, 1, 13⟩, ⟨16, 1, 17⟩⟩],
        ⟨⟨11, 1, 12⟩, ⟨17, 1, 18⟩⟩⟩, ⟨⟨0, 1, 1⟩, ⟨17, 1, 18⟩⟩⟩], ⟨⟨0, 1, 1⟩, ⟨17, 1, 18⟩⟩⟩ := by
    decide +kernel
  exact ⟨_, accepted, by decide +kernel, (canonical_text_keeps_tokens accepted).1⟩

end Programs

end SableSyntax
