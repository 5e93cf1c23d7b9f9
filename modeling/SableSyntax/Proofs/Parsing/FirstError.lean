/- SableSyntax/Proofs/Parsing/FirstError
   digest: An error is reported at the first token behind which the text can no longer be mended. -/

import SableSyntax.Proofs.Parsing.Acceptance

set_option autoImplicit false
set_option relaxedAutoImplicit false

namespace SableSyntax

open Grammar SableSyntax.Parser

/-- Whether some lexemes, the end of the text last, are those of a text that is read as a
program. -/
def Accepted (lexemes : List Lexeme) : Prop :=
  ∃ source program tokens, parse source = .ok program ∧ tokenize source = .ok tokens ∧
    tokens.map Token.toLexeme = lexemes

/-- Whether some lexemes are those with which a text starts that is read as a program. -/
def BeginsAccepted (lexemes : List Lexeme) : Prop := ∃ more, Accepted (lexemes ++ more)

def written (tokens : List Token) : String := String.ofList (spaced (tokens.map Token.toLexeme))

theorem tokenize_written {tokens : List Token} (spelled : ∀ token ∈ tokens, token.WellSpelled) :
    ∃ tokens' stop, tokenize (written tokens) = .ok (tokens' ++ [stop]) ∧
      tokens'.map Token.toLexeme = tokens.map Token.toLexeme ∧
      stop.toLexeme = ⟨.endOfInput, ""⟩ := by
  apply tokenize_of_lexes
  rw [written, String.toList_ofList]
  exact lexes_spaced (by simpa using spelled) []

theorem beginsAccepted_of_viable {stop : Token} {tokens : List Token}
    (spelled : ∀ token ∈ tokens, token.WellSpelled) (h : Viable (ProgramUpTo stop) tokens) :
    BeginsAccepted (tokens.map Token.toLexeme) := by
  obtain ⟨more, program, spelled', derived⟩ := h
  obtain ⟨tokens', stop', lexed, lexemes, -⟩ := @tokenize_written (tokens ++ more) (by
    simpa [or_imp, forall_and] using ⟨spelled, spelled'⟩)
  obtain ⟨program', derived', -⟩ := programRule_transports (readable_transports _ _) derived
    (.of_toLexeme_eq lexemes.symm) stop'
  have read := parse_eq_ok_iff.2 ⟨tokens', stop', lexed, derived'⟩
  refine ⟨more.map Token.toLexeme ++ [stop'.toLexeme], _, program', _, read, lexed, ?_⟩
  simp [lexemes]

theorem ParserState.aheadOf_append_end {tokens : List Token} {stop : Token}
    (others : ∀ token ∈ tokens, token.kind ≠ .endOfInput) (atEnd : stop.kind = .endOfInput)
    (results : List LexResult) :
    aheadOf (tokens ++ [stop]) results = tokens.map .ok ++ [.ok stop] := by
  induction tokens with
  | nil => simp [aheadOf, atEnd]
  | cons token tokens ih =>
    simp only [List.forall_mem_cons] at others
    rw [List.cons_append, aheadOf_cons_of_ne others.1, ih others.2]
    rfl

theorem exists_state_of_beginsAccepted {tokens : List Token}
    (h : BeginsAccepted (tokens.map Token.toLexeme)) :
    ∃ (state : ParserState) (rest : List LexResult) (program : Program) (reached : ParserState),
      state.ahead = tokens.map .ok ++ rest ∧ Parser.program state = .ok program reached := by
  obtain ⟨more, source, program, all, read, lexed, lexemes⟩ := h
  obtain ⟨tokens', stop', lexed', derived⟩ := parse_eq_ok_iff.1 read
  obtain rfl : all = tokens' ++ [stop'] := Except.ok.inj (lexed.symm.trans lexed')
  have others := (end_of_tokenize lexed').2
  obtain ⟨first, rest, same, lexemesFirst, -⟩ := List.map_eq_append_iff.1 lexemes
  have whole : (tokens ++ rest).map Token.toLexeme =
      tokens'.map Token.toLexeme ++ [stop'.toLexeme] := by
    rw [List.map_append, ← lexemesFirst, ← List.map_append, ← same, List.map_append]
    rfl
  -- The given tokens take the place of the ones that were read.
  obtain ⟨body, last, split, lexemesBody, lexemesLast⟩ := List.map_eq_append_iff.1 whole
  obtain ⟨stop, rfl, lexemeStop⟩ := List.map_eq_singleton_iff.1 lexemesLast
  obtain ⟨program', derived', -⟩ := programRule_transports (readable_transports _ _) derived
    (.of_toLexeme_eq lexemesBody.symm) stop
  have atEnd' : stop.kind = .endOfInput :=
    (congrArg Lexeme.kind lexemeStop).trans (kind_of_tokenize lexed')
  have others' : ∀ token ∈ body, token.kind ≠ .endOfInput := by
    intro token member
    have listed : token.toLexeme ∈ tokens'.map Token.toLexeme :=
      lexemesBody ▸ List.mem_map_of_mem member
    obtain ⟨token', member', same'⟩ := List.mem_map.1 listed
    exact congrArg Lexeme.kind same' ▸ others token' member'
  have ahead : ParserState.ahead ⟨body ++ [stop], .ofText "", []⟩ = body.map .ok ++ [.ok stop] :=
    ParserState.aheadOf_append_end others' atEnd' _
  obtain ⟨reached, h, -⟩ := program_yields derived' atEnd' _ ahead
  refine ⟨_, rest.map .ok, program', reached, ?_, h⟩
  rw [ahead, ← List.map_append, split, List.map_append]
  rfl

theorem not_beginsAccepted_of_fails {source : String} {error : SyntaxError} {used : List Token}
    {token : Token} {rest : List LexResult}
    (ahead : (ParserState.ofText source).ahead = used.map .ok ++ .ok token :: rest)
    (fails : ∀ other, ParserState.SameAhead (used.length + 1) (.ofText source) other →
      ∃ last, Parser.program other = .error error last) :
    ¬ BeginsAccepted ((used ++ [token]).map Token.toLexeme) := by
  intro begins
  obtain ⟨state, rest', program, reached, ahead', read⟩ := exists_state_of_beginsAccepted begins
  have agrees : ParserState.SameAhead (used.length + 1) (.ofText source) state := by
    have front := ParserState.SameAhead.of_append
      (show (ParserState.ofText source).ahead = (used ++ [token]).map .ok ++ rest by simp [ahead])
      ahead'
    simpa using front
  obtain ⟨last, failed⟩ := fails state agrees
  rw [read] at failed
  cases failed

private theorem not_isUnexpectedEnd_of_skipGap {mode : GapMode} {place : Location}
    {text : List Char} {error : SyntaxError} {reached : Cursor}
    (h : skipGap mode place text = .error error reached) : ¬ error.fault.IsUnexpectedEnd := by
  fun_induction skipGap mode place text with
  | case1 | case5 | case6 => cases h
  | case8 =>
    cases h
    simp [Fault.IsUnexpectedEnd]
  | case2 _ _ ih | case3 _ _ ih | case9 _ _ _ ih => exact ih h
  | case4 _ _ _ _ _ _ ih | case7 _ _ _ ih | case10 _ _ _ _ _ ih => exact ih h

theorem not_isUnexpectedEnd_of_mem_results {cursor : Cursor} {error : SyntaxError}
    (member : .error error ∈ cursor.results) : ¬ error.fault.IsUnexpectedEnd := by
  induction cursor using Cursor.results.induct with
  | case1 cursor found reached h ih =>
    rw [Cursor.results_of_error h] at member
    rcases List.mem_cons.1 member with same | member
    · obtain rfl : error = found := by simpa using same
      unfold Cursor.next at h
      split at h
      · unfold Cursor.lexeme at h
        split at h
        · cases h
        · cases h
          simp [Fault.IsUnexpectedEnd]
      · next gap =>
        cases h
        exact not_isUnexpectedEnd_of_skipGap gap
    · exact ih member
  | case2 cursor token reached h atEnd =>
    rw [Cursor.results_of_end h atEnd] at member
    simp at member
  | case3 cursor token reached h notEnd ih =>
    rw [Cursor.results_of_token h notEnd] at member
    exact ih (by simpa using member)

/-- What a reading of a whole text fails at: a fault of the text, or a token. -/
inductive FailsAt (source : String) (error : SyntaxError) : Prop
  | fault (before : List Token)
    (drained : (Lexer.ofText source).drain.1 = before.map .ok ++ [.error error])
    (begins : BeginsAccepted (before.map Token.toLexeme))
    (other : ¬ error.fault.IsUnexpectedEnd)
  | token (before : List Token) (token : Token) (after : List LexResult)
    (drained : (Lexer.ofText source).drain.1 = before.map .ok ++ .ok token :: after)
    (covers : error.span = token.span) (begins : BeginsAccepted (before.map Token.toLexeme))
    (ends : ¬ BeginsAccepted ((before ++ [token]).map Token.toLexeme))
    (atEnd : error.fault.IsUnexpectedEnd ↔ token.kind = .endOfInput)

theorem failsAt_of_parse_eq_error {source : String} {error : SyntaxError}
    (h : parse source = .error error) : FailsAt source error := by
  obtain ⟨reached, failed⟩ := runOn_eq_error_iff.1 h
  have runs := program_runs (.ofText source)
  simp only [Runs, failed] at runs
  obtain ⟨used, result, rest, ahead, blames, viable, steady⟩ := runs
  have begins := beginsAccepted_of_viable (wellSpelled_of_results ahead) viable
  have drained : (Lexer.ofText source).drain.1 = used.map .ok ++ untilFault (result :: rest) := by
    rw [Lexer.drain_ofText, ← ParserState.ahead_ofText, ahead, untilFault_map_ok_append]
  cases blames with
  | fault error =>
    have member : .error error ∈ (Cursor.ofText source).results := by
      rw [← ParserState.ahead_ofText, ahead]
      exact List.mem_append_right _ List.mem_cons_self
    exact .fault used drained begins (not_isUnexpectedEnd_of_mem_results member)
  | token covers ends =>
    exact .token used _ _ drained covers begins (not_beginsAccepted_of_fails ahead steady) ends

theorem Accepted.exists_append_end {lexemes : List Lexeme} (h : Accepted lexemes) :
    ∃ front, lexemes = front ++ [⟨.endOfInput, ""⟩] := by
  obtain ⟨source, program, all, read, lexed, rfl⟩ := h
  obtain ⟨tokens, stop, lexed', -⟩ := parse_eq_ok_iff.1 read
  obtain rfl : all = tokens ++ [stop] := Except.ok.inj (lexed.symm.trans lexed')
  refine ⟨tokens.map Token.toLexeme, ?_⟩
  simp [(end_of_tokenize lexed').1]

private theorem append_cons_cases {tokens before after : List Token} {stop token : Token}
    (same : tokens ++ [stop] = before ++ token :: after) :
    (before = tokens ∧ token = stop) ∨ ∃ more, tokens = before ++ token :: more := by
  rcases List.append_eq_append_iff.1 same with ⟨more, rfl, rest⟩ | ⟨more, rfl, rest⟩
  · cases more with
    | nil =>
      simp only [List.nil_append, List.cons.injEq] at rest
      exact .inl ⟨List.append_nil tokens, rest.1.symm⟩
    | cons => simp at rest
  · cases more with
    | nil =>
      simp only [List.nil_append, List.cons.injEq] at rest
      exact .inl ⟨(List.append_nil before).symm, rest.1⟩
    | cons other more =>
      simp only [List.cons_append, List.cons.injEq] at rest
      exact .inr ⟨more, by rw [rest.1]⟩

theorem exists_token_of_parse_eq_error {source : String} {tokens : List Token} {stop : Token}
    {error : SyntaxError} (lexed : tokenize source = .ok (tokens ++ [stop]))
    (h : parse source = .error error) :
    ∃ before token,
      ((before = tokens ∧ token = stop) ∨ ∃ more, tokens = before ++ token :: more) ∧
      BeginsAccepted (before.map Token.toLexeme) ∧
      ¬ BeginsAccepted ((before ++ [token]).map Token.toLexeme) ∧
      (error.fault.IsUnexpectedEnd ↔ token.kind = .endOfInput) := by
  have drained : (Lexer.ofText source).drain.1 = (tokens ++ [stop]).map .ok := by
    rw [Lexer.drain_ofText, tokenize_eq_ok_iff.1 lexed, untilFault_map_ok]
  rcases failsAt_of_parse_eq_error h with
    ⟨before, drained', -⟩ | ⟨before, token, after, drained', -, begins, ends, atEnd⟩
  · have last := congrArg List.getLast? (drained.symm.trans drained')
    simp at last
  · obtain ⟨front, back, same, sameFront, sameBack⟩ :=
      List.map_eq_append_iff.1 (drained.symm.trans drained')
    obtain ⟨first, rest, rfl, sameToken, -⟩ := List.map_eq_cons_iff.1 sameBack
    obtain rfl : front = before := (List.map_inj_right fun _ _ => Except.ok.inj).1 sameFront
    obtain rfl : first = token := Except.ok.inj sameToken
    exact ⟨front, first, append_cons_cases same, begins, ends, atEnd⟩

theorem exists_more_of_beginsAccepted {lexemes : List Lexeme}
    (others : ∀ lexeme ∈ lexemes, lexeme.kind ≠ .endOfInput) (begins : BeginsAccepted lexemes)
    (other : ¬ Accepted (lexemes ++ [⟨.endOfInput, ""⟩])) :
    ∃ more, more ≠ [] ∧ Accepted (lexemes ++ more ++ [⟨.endOfInput, ""⟩]) := by
  obtain ⟨more, accepted⟩ := begins
  obtain ⟨front, same⟩ := accepted.exists_append_end
  rcases List.eq_nil_or_concat more with rfl | ⟨more, last, rfl⟩
  · have listed : Lexeme.mk .endOfInput "" ∈ lexemes := by
      rw [← List.append_nil lexemes, same]
      exact List.mem_append_right _ List.mem_cons_self
    exact absurd rfl (others _ listed)
  · rw [List.concat_eq_append, ← List.append_assoc] at same accepted
    obtain ⟨-, sameLast⟩ := List.append_inj' same rfl
    rw [sameLast] at accepted
    refine ⟨more, ?_, accepted⟩
    intro h
    subst h
    exact other (by simpa using accepted)

/-- A text without faults of its own is said to end unexpectedly if and only if its tokens are no
program but begin one that goes on. -/
theorem unexpectedEnd_iff {source : String} {tokens : List Token} {stop : Token}
    (lexed : tokenize source = .ok (tokens ++ [stop])) :
    (∃ error, parse source = .error error ∧ error.fault.IsUnexpectedEnd) ↔
      ¬ Accepted ((tokens ++ [stop]).map Token.toLexeme) ∧ ∃ more, more ≠ [] ∧
        Accepted (tokens.map Token.toLexeme ++ more ++ [stop.toLexeme]) := by
  obtain ⟨lexeme, others⟩ := end_of_tokenize lexed
  constructor
  · intro h
    rcases h with ⟨error, h, isEnd⟩
    rcases exists_token_of_parse_eq_error lexed h with
      ⟨before, token, ⟨rfl, rfl⟩ | ⟨more, rfl⟩, begins, ends, atEnd⟩
    · have other : ¬ Accepted ((before ++ [token]).map Token.toLexeme) := by
        intro accepted
        exact ends ⟨[], by simpa using accepted⟩
      refine ⟨other, lexeme ▸ exists_more_of_beginsAccepted ?_ begins ?_⟩
      · simpa using others
      · simpa [lexeme] using other
    · exact absurd (atEnd.1 isEnd) (others token (by simp))
  · intro h
    rcases h with ⟨other, more, -, begins⟩
    cases h : parse source with
    | ok program => exact absurd ⟨source, program, _, h, lexed, rfl⟩ other
    | error error =>
      rcases exists_token_of_parse_eq_error lexed h with
        ⟨before, token, ⟨rfl, rfl⟩ | ⟨more', rfl⟩, -, ends, atEnd⟩
      · exact ⟨error, rfl, atEnd.2 (congrArg Lexeme.kind lexeme)⟩
      · -- The token before which reading stopped would be one of those that begin a program.
        have begins' : BeginsAccepted ((before ++ [token]).map Token.toLexeme) :=
          ⟨more'.map Token.toLexeme ++ more ++ [stop.toLexeme], by simpa using begins⟩
        exact absurd begins' ends

/-- A text that is not read as a program is faulted at the first point at which it stops being the
beginning of one. Either the error is the first fault of the text itself, and the tokens before it
begin a program; or the error covers a token, the end of the text included, such that the tokens
before it begin a program and with it begin none. The error speaks of an unexpected end if and only
if the token is the end; so a text without faults of its own is said to end unexpectedly if and only
if its tokens are no program but begin one that goes on. -/
theorem parse_error_at_first_impossible_token (source : String) :
    (∀ error, parse source = .error error →
      (∃ before : List Token,
        (Lexer.ofText source).drain.1 = before.map .ok ++ [.error error] ∧
        BeginsAccepted (before.map Token.toLexeme) ∧ ¬ error.fault.IsUnexpectedEnd) ∨
      (∃ (before : List Token) (token : Token) (after : List LexResult),
        (Lexer.ofText source).drain.1 = before.map .ok ++ .ok token :: after ∧
        error.span = token.span ∧ BeginsAccepted (before.map Token.toLexeme) ∧
        ¬ BeginsAccepted ((before ++ [token]).map Token.toLexeme) ∧
        (error.fault.IsUnexpectedEnd ↔ token.kind = .endOfInput))) ∧
    (∀ tokens stop, tokenize source = .ok (tokens ++ [stop]) →
      ((∃ error, parse source = .error error ∧ error.fault.IsUnexpectedEnd) ↔
        ¬ Accepted ((tokens ++ [stop]).map Token.toLexeme) ∧
        ∃ more, more ≠ [] ∧
          Accepted (tokens.map Token.toLexeme ++ more ++ [stop.toLexeme]))) := by
  refine ⟨fun error h => ?_, fun tokens stop lexed => ?_⟩
  · rcases failsAt_of_parse_eq_error h with
      ⟨before, drained, begins, other⟩ |
      ⟨before, token, after, drained, covers, begins, ends, atEnd⟩
    · exact .inl ⟨before, drained, begins, other⟩
    · exact .inr ⟨before, token, after, drained, covers, begins, ends, atEnd⟩
  · exact unexpectedEnd_iff lexed

end SableSyntax
