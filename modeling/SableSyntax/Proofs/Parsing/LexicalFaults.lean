/- SableSyntax/Proofs/Parsing/LexicalFaults
   digest: Reading a program and reading its tokens come to the same lexical faults. -/

import SableSyntax.Proofs.Parsing.FirstError
import SableSyntax.Proofs.Sessions.Streams

set_option autoImplicit false
set_option relaxedAutoImplicit false

namespace SableSyntax

namespace Cursor

theorem rest_eq_nil_of_next_end {cursor reached : Cursor} {token : Token}
    (h : cursor.next = .ok token reached) (atEnd : token.kind = .endOfInput) :
    reached.rest = [] := by
  unfold next at h
  split at h
  · next middle gap =>
    unfold lexeme at h
    split at h
    · next found scanned =>
      cases h
      have empty : middle.rest = [] := (kind_eq_endOfInput_iff_of_scan scanned).1 atEnd
      have whole : found.spelling ++ found.rest = [] :=
        (spelling_append_rest_of_scan scanned).trans empty
      exact (List.append_eq_nil_iff.1 whole).2
    · cases h
  · cases h

theorem mem_draws_of_rest_eq_nil {cursor : Cursor} (empty : cursor.rest = []) {count : Nat}
    {result : LexResult} (member : result ∈ (cursor.draws count).1) :
    ∃ token, result = .ok token := by
  have stays : cursor.step = (.ok (.endAt cursor.location), cursor) := by
    obtain ⟨place, rest⟩ := cursor
    obtain rfl : rest = [] := empty
    rfl
  induction count with
  | zero => cases member
  | succ count ih =>
    rw [draws, stays] at member
    rcases List.mem_cons.1 member with same | member
    · exact ⟨_, same⟩
    · exact ih member

theorem exists_results_of_draws {cursor last : Cursor} {tokens : List Token} {error : SyntaxError}
    (h : cursor.draws (tokens.length + 1) = (tokens.map .ok ++ [.error error], last)) :
    ∃ rest, cursor.results = tokens.map .ok ++ .error error :: rest := by
  induction tokens generalizing cursor with
  | nil =>
    have first : cursor.step.1 = .error error := by
      simpa [draws] using congrArg (fun drawn => drawn.1.head?) h
    unfold step at first
    cases next : cursor.next with
    | ok token reached => simp [next] at first
    | error found reached =>
      obtain rfl : found = error := by simpa [next] using first
      exact ⟨reached.results, results_of_error next⟩
  | cons token tokens ih =>
    rw [List.length_cons, draws] at h
    simp only [List.map_cons, List.cons_append, Prod.mk.injEq, List.cons.injEq] at h
    obtain ⟨⟨first, behind⟩, ends⟩ := h
    have drawn : cursor.step.2.draws (tokens.length + 1) =
        (tokens.map .ok ++ [.error error], last) := Prod.ext behind ends
    unfold step at first drawn
    cases next : cursor.next with
    | error found reached => simp [next] at first
    | ok found reached =>
      obtain rfl : found = token := by simpa [next] using first
      simp only [next] at drawn
      by_cases atEnd : found.kind = .endOfInput
      · -- What is taken behind the end is the end again, and no fault.
        have empty := rest_eq_nil_of_next_end next atEnd
        have listed : .error error ∈ (reached.draws (tokens.length + 1)).1 := by
          rw [drawn]
          exact List.mem_append_right _ List.mem_cons_self
        obtain ⟨other, same⟩ := mem_draws_of_rest_eq_nil empty listed
        cases same
      · obtain ⟨rest, same⟩ := ih drawn
        refine ⟨rest, ?_⟩
        rw [results_of_token next atEnd, same]
        rfl

end Cursor

open Session in
theorem tokenize_eq_error_of_isLexical {source : String} {error : SyntaxError}
    (failed : parse source = .error error) (lexical : error.fault.isLexical) :
    tokenize source = .error error := by
  let beyond : Session.Readers :=
    ⟨throw error, fun _ => throw error, fun _ _ => throw error, throw error⟩
  have answers : Answers (ofText source) .program
      (Session.step (reader beyond .program) (ofText source)) := step_answers beyond .program rfl
  have outcome : (Session.step (reader beyond .program) (ofText source)).1 = .error error :=
    (congrArg Prod.fst answers.same).symm.trans failed
  obtain ⟨-, tokens, fresh, shape, draws, -⟩ := answers.leads
  have faults : lexicalErrors (Session.step (reader beyond .program) (ofText source)).1 =
      [error] := by
    rw [outcome, lexicalErrors, SyntaxError.lexical, if_pos lexical]
  rw [faults] at shape
  subst shape
  have counted : (tokens.map Except.ok ++ [error].map Except.error : List LexResult).length =
      tokens.length + 1 := by simp
  rw [counted] at draws
  obtain ⟨rest, same⟩ := Cursor.exists_results_of_draws draws
  exact tokenize_eq_error same

theorem offset_lt_of_results {source : String} {before middle : List Token} {token : Token}
    {error : SyntaxError} {rest : List LexResult}
    (same : (Cursor.ofText source).results =
      before.map .ok ++ .ok token :: (middle.map .ok ++ .error error :: rest)) :
    token.span.start.offset < error.location.offset := by
  have inText := Cursor.isIn_ofText source
  have member : .ok token ∈ (Cursor.ofText source).results := by
    rw [same]
    exact List.mem_append_right _ List.mem_cons_self
  have notEmpty : token.text.toList ≠ [] := by
    have parts : (Cursor.ofText source).results =
        (before ++ [token] ++ middle).map .ok ++ .error error :: rest := by simpa using same
    have spelled := wellSpelled_of_results parts
    exact (spelled token (by simp)).ne_nil
  obtain ⟨front, behind, -, starts, stops⟩ :=
    Span.slice?_eq_some_iff.1 (inText.slice?_of_mem_results member)
  have long : 0 < byteLength token.text.toList := byteLength_pos notEmpty
  have ordered : Span.Before token.span error.span := by
    have laid := inText.laidOut_results.ordered
    rw [same] at laid
    obtain ⟨-, laid, -⟩ := List.pairwise_append.1 laid
    exact (List.pairwise_cons.1 laid).1 (.error error) (by simp)
  have le : token.span.stop.offset ≤ error.location.offset := ordered
  omega

/-- Reading a program and reading the tokens of its text agree on lexical faults. A text that is
read as a program is read as tokens. A lexical fault that stops the reading of a program is the
error of the text, with its place. And the error of a text that is not read as tokens is the error
of the program too, unless that is stopped by an earlier token: then its error is no lexical one
and starts at a smaller offset. -/
theorem parse_agrees_on_lexical_faults (source : String) :
    (∀ program, parse source = .ok program → ∃ tokens, tokenize source = .ok tokens) ∧
    (∀ error, parse source = .error error → error.fault.isLexical →
      tokenize source = .error error) ∧
    (∀ error, tokenize source = .error error → parse source = .error error ∨
      ∃ earlier, parse source = .error earlier ∧ earlier.fault.isLexical = false ∧
        earlier.location.offset < error.location.offset) := by
  refine ⟨fun program accepted => ?_, fun error => tokenize_eq_error_of_isLexical,
    fun error failed => ?_⟩
  · obtain ⟨tokens, stop, lexed, -⟩ := parse_eq_ok_iff.1 accepted
    exact ⟨_, lexed⟩
  · obtain ⟨tokens, rest, same⟩ := tokenize_eq_error_iff.1 failed
    have drained : (Lexer.ofText source).drain.1 = tokens.map .ok ++ [.error error] := by
      rw [Lexer.drain_ofText, same, untilFault_map_ok_append, untilFault]
    cases read : parse source with
    | ok program =>
      obtain ⟨_, _, lexed, -⟩ := parse_eq_ok_iff.1 read
      cases failed.symm.trans lexed
    | error earlier =>
      rcases failsAt_of_parse_eq_error read with
        ⟨before, drained', -⟩ | ⟨before, token, after, drained', covers, -⟩
      · have last := congrArg List.getLast? (drained.symm.trans drained')
        obtain rfl : error = earlier := by simpa using last
        exact .inl rfl
      · obtain ⟨middle, rfl⟩ := exists_middle_of_fault (drained.symm.trans drained')
        have ahead : token.span.start.offset < error.location.offset :=
          offset_lt_of_results (by simpa using same)
        have smaller : earlier.location.offset < error.location.offset := by
          rwa [SyntaxError.location, covers]
        refine .inr ⟨earlier, rfl, ?_, smaller⟩
        by_contra lexical
        have failed' := tokenize_eq_error_of_isLexical read (by simpa using lexical)
        obtain rfl : earlier = error := Except.error.inj (failed'.symm.trans failed)
        exact absurd smaller (Nat.lt_irrefl _)

/-- A number is no program, which is found before the character behind it that starts no token. -/
theorem parse_agrees_on_lexical_faults_number :
    tokenize "1 $" = .error ⟨.unrecognizedCharacter '$', ⟨⟨2, 1, 3⟩, ⟨3, 1, 4⟩⟩⟩ ∧
    ∃ earlier, parse "1 $" = .error earlier ∧ earlier.fault.isLexical = false ∧
      earlier.location.offset < 2 := by
  have lexed : tokenize "1 $" =
      .error ⟨.unrecognizedCharacter '$', ⟨⟨2, 1, 3⟩, ⟨3, 1, 4⟩⟩⟩ := by
    decide +kernel
  have other : parse "1 $" ≠ .error ⟨.unrecognizedCharacter '$', ⟨⟨2, 1, 3⟩, ⟨3, 1, 4⟩⟩⟩ := by
    decide +kernel
  rcases (parse_agrees_on_lexical_faults "1 $").2.2 _ lexed with same | earlier
  · exact absurd same other
  · exact ⟨lexed, earlier⟩

end SableSyntax
