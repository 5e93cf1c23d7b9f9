/- SableSyntax/Proofs/Lexing/TokenStream
   digest: The results a text gives one after the other, and reading them off it step by step. -/

import SableSyntax.Lexing.Lexer
import SableSyntax.Parsing.Parser

set_option autoImplicit false
set_option relaxedAutoImplicit false

namespace SableSyntax

abbrev LexResult := Except SyntaxError Token

def LexResult.unplaced : LexResult → Except Fault Lexeme
  | .ok token => .ok token.toLexeme
  | .error error => .error error.fault

namespace Cursor

private theorem rest_ne_nil_of_skipGap_error {place : Location} {text : List Char}
    {error : SyntaxError} {reached : Cursor}
    (h : skipGap .between place text = .error error reached) : text ≠ [] := by
  intro same
  subst same
  cases h

theorem rest_length_lt_of_next_error {cursor reached : Cursor} {error : SyntaxError}
    (h : cursor.next = .error error reached) : reached.rest.length < cursor.rest.length := by
  unfold next at h
  split at h
  · next middle gap =>
    have shorter := rest_length_le_of_skipGap gap
    unfold lexeme at h
    split at h
    · cases h
    · next c hscan =>
      cases h
      cases htext : middle.rest with
      | nil => simp [htext, scan] at hscan
      | cons d text =>
        simp only [htext, List.length_cons] at shorter
        simp only [List.tail_cons]
        omega
  · next gap =>
    cases h
    have nonempty := List.length_pos_iff.2 (rest_ne_nil_of_skipGap_error gap)
    rw [rest_eq_nil_of_skipGap gap]
    exact nonempty

/-- All results that a text has still to give. The reading goes on behind a fault and stops with
the end of the text. -/
def results (cursor : Cursor) : List LexResult :=
  match _ : cursor.next with
  | .error error reached => .error error :: reached.results
  | .ok token reached =>
    if _ : token.kind = .endOfInput then [.ok token] else .ok token :: reached.results
termination_by cursor.rest.length
decreasing_by
  · exact rest_length_lt_of_next_error ‹_›
  · exact rest_length_lt_of_next ‹_› ‹_›

theorem results_of_error {cursor reached : Cursor} {error : SyntaxError}
    (h : cursor.next = .error error reached) :
    cursor.results = .error error :: reached.results := by
  rw [results]
  split
  · simp_all
  · simp_all

theorem results_of_end {cursor reached : Cursor} {token : Token}
    (h : cursor.next = .ok token reached) (atEnd : token.kind = .endOfInput) :
    cursor.results = [.ok token] := by
  rw [results]
  split
  · simp_all
  · simp_all

theorem results_of_token {cursor reached : Cursor} {token : Token}
    (h : cursor.next = .ok token reached) (notEnd : token.kind ≠ .endOfInput) :
    cursor.results = .ok token :: reached.results := by
  rw [results]
  split
  · simp_all
  · simp_all

theorem toLexeme_of_next_end {cursor reached : Cursor} {token : Token}
    (h : cursor.next = .ok token reached) (atEnd : token.kind = .endOfInput) :
    token.toLexeme = ⟨.endOfInput, ""⟩ := by
  unfold next at h
  split at h
  · next middle gap =>
    unfold lexeme at h
    split at h
    · next found hscan =>
      cases h
      have empty := (kind_eq_endOfInput_iff_of_scan hscan).1 atEnd
      rw [empty] at hscan
      cases hscan
      rfl
    · cases h
  · cases h

theorem exists_results_eq_append_end (cursor : Cursor) :
    ∃ (body : List LexResult) (stop : Token), cursor.results = body ++ [.ok stop] ∧
      stop.toLexeme = ⟨.endOfInput, ""⟩ ∧
      ∀ token, .ok token ∈ body → token.kind ≠ .endOfInput := by
  induction cursor using results.induct with
  | case1 cursor error reached h ih =>
    obtain ⟨body, stop, same, atEnd, others⟩ := ih
    refine ⟨.error error :: body, stop, ?_, atEnd, ?_⟩
    · rw [results_of_error h, same, List.cons_append]
    · simpa using others
  | case2 cursor token reached h atEnd =>
    exact ⟨[], token, results_of_end h atEnd, toLexeme_of_next_end h atEnd, by simp⟩
  | case3 cursor token reached h notEnd ih =>
    obtain ⟨body, stop, same, atEnd, others⟩ := ih
    refine ⟨.ok token :: body, stop, ?_, atEnd, ?_⟩
    · rw [results_of_token h notEnd, same, List.cons_append]
    · simp only [List.mem_cons, Except.ok.injEq]
      intro other member
      rcases member with rfl | member
      · exact notEnd
      · exact others other member

theorem exists_next_of_mem_results {cursor : Cursor} {token : Token}
    (member : .ok token ∈ cursor.results) :
    ∃ middle reached : Cursor, middle.next = .ok token reached := by
  induction cursor using results.induct with
  | case1 cursor error reached next ih =>
    rw [results_of_error next] at member
    exact ih (by simpa using member)
  | case2 cursor last reached next atEnd =>
    rw [results_of_end next atEnd] at member
    obtain rfl : token = last := by simpa using member
    exact ⟨cursor, reached, next⟩
  | case3 cursor other reached next notEnd ih =>
    rw [results_of_token next notEnd] at member
    rcases List.mem_cons.1 member with same | member
    · obtain rfl : token = other := Except.ok.inj same
      exact ⟨cursor, reached, next⟩
    · exact ih member

theorem results_ne_nil (cursor : Cursor) : cursor.results ≠ [] := by
  obtain ⟨body, stop, same, -⟩ := exists_results_eq_append_end cursor
  simp [same]

end Cursor

/-- Results up to the first fault, which is kept. -/
def untilFault : List LexResult → List LexResult
  | [] => []
  | .error error :: _ => [.error error]
  | .ok token :: rest => .ok token :: untilFault rest

@[simp] theorem untilFault_map_ok (tokens : List Token) :
    untilFault (tokens.map .ok) = tokens.map .ok := by
  induction tokens with
  | nil => rfl
  | cons token tokens ih => simp [untilFault, ih]

@[simp] theorem untilFault_map_ok_append (tokens : List Token) (rest : List LexResult) :
    untilFault (tokens.map .ok ++ rest) = tokens.map .ok ++ untilFault rest := by
  induction tokens with
  | nil => rfl
  | cons token tokens ih => simp [untilFault, ih]

theorem isPrefix_untilFault (all : List LexResult) : untilFault all <+: all := by
  induction all with
  | nil => exact List.prefix_rfl
  | cons result all ih =>
    cases result with
    | ok token => exact (List.prefix_cons_inj _).2 ih
    | error error => exact ⟨all, rfl⟩

theorem untilFault_eq_map_ok_iff {all : List LexResult} {tokens : List Token} :
    untilFault all = tokens.map .ok ↔ all = tokens.map .ok := by
  refine ⟨fun h => ?_, fun h => h ▸ untilFault_map_ok tokens⟩
  induction all generalizing tokens with
  | nil => simpa [untilFault] using h
  | cons result all ih =>
    cases tokens with
    | nil => cases result <;> simp [untilFault] at h
    | cons token tokens =>
      cases result with
      | error error => simp [untilFault] at h
      | ok first =>
        simp only [untilFault, List.map_cons, List.cons.injEq] at h ⊢
        exact ⟨h.1, ih h.2⟩

theorem Cursor.run_eq_untilFault (cursor : Cursor) :
    cursor.run.1 = untilFault cursor.results := by
  induction cursor using Cursor.run.induct with
  | case1 cursor error reached h =>
    rw [run, results_of_error h]
    split <;> simp_all [untilFault]
  | case2 cursor token reached h atEnd =>
    rw [run, results_of_end h atEnd]
    split <;> simp_all [untilFault]
  | case3 cursor token reached h notEnd results last same ih =>
    rw [run, results_of_token h notEnd]
    split <;> simp_all [untilFault]

theorem Lexer.drain_ofText (source : String) :
    (Lexer.ofText source).drain.1 = untilFault (Cursor.ofText source).results := by
  rw [← Cursor.run_eq_untilFault]
  rfl

private theorem mapM_id_eq_ok_iff {all : List LexResult} {tokens : List Token} :
    all.mapM id = .ok tokens ↔ all = tokens.map .ok := by
  induction all generalizing tokens with
  | nil => cases tokens <;> simp [pure, Except.pure]
  | cons result all ih =>
    rw [List.mapM_cons]
    cases result with
    | error error =>
      cases tokens <;> simp [bind, Except.bind]
    | ok first =>
      cases hrest : all.mapM id with
      | error error =>
        have none_ok : ∀ tokens : List Token, all ≠ tokens.map .ok := by
          intro tokens same
          rw [ih.2 same] at hrest
          cases hrest
        cases tokens <;> simp [bind, Except.bind, none_ok]
      | ok rest =>
        have same := ih.1 hrest
        cases tokens with
        | nil => simp [bind, Except.bind, pure, Except.pure]
        | cons token tokens =>
          have inj : rest.map Except.ok = tokens.map (Except.ok (ε := SyntaxError)) ↔
              rest = tokens :=
            List.map_inj_right fun _ _ => Except.ok.inj
          simp [bind, Except.bind, pure, Except.pure, same, inj]

theorem tokenize_eq_ok_iff {source : String} {tokens : List Token} :
    tokenize source = .ok tokens ↔ (Cursor.ofText source).results = tokens.map .ok := by
  rw [tokenize, mapM_id_eq_ok_iff, Lexer.drain_ofText, untilFault_eq_map_ok_iff]

theorem tokenize_eq_error {source : String} {tokens : List Token} {error : SyntaxError}
    {rest : List LexResult}
    (h : (Cursor.ofText source).results = tokens.map .ok ++ .error error :: rest) :
    tokenize source = .error error := by
  rw [tokenize, Lexer.drain_ofText, h, untilFault_map_ok_append, untilFault]
  clear h
  induction tokens with
  | nil => rfl
  | cons token tokens ih =>
    rw [List.map_cons, List.cons_append, List.mapM_cons, ih]
    rfl

theorem first_fault_cases (all : List LexResult) :
    (∃ tokens : List Token, all = tokens.map .ok) ∨
      ∃ (tokens : List Token) (error : SyntaxError) (rest : List LexResult),
        all = tokens.map .ok ++ .error error :: rest := by
  induction all with
  | nil => exact .inl ⟨[], rfl⟩
  | cons result all ih =>
    cases result with
    | error error => exact .inr ⟨[], error, all, rfl⟩
    | ok token =>
      rcases ih with ⟨tokens, rfl⟩ | ⟨tokens, error, rest, rfl⟩
      · exact .inl ⟨token :: tokens, rfl⟩
      · exact .inr ⟨token :: tokens, error, rest, rfl⟩

theorem exists_middle_of_fault {tokens before : List Token} {token : Token}
    {error : SyntaxError} {after : List LexResult}
    (same : (tokens.map Except.ok ++ [Except.error error] : List LexResult) =
      before.map .ok ++ .ok token :: after) :
    ∃ middle, tokens = before ++ token :: middle := by
  induction before generalizing tokens with
  | nil =>
    cases tokens with
    | nil => simp at same
    | cons first tokens =>
      obtain rfl : first = token := by simpa using congrArg List.head? same
      exact ⟨tokens, rfl⟩
  | cons other before ih =>
    cases tokens with
    | nil => simp at same
    | cons first tokens =>
      simp only [List.map_cons, List.cons_append, List.cons.injEq, Except.ok.injEq] at same
      obtain ⟨rfl, same⟩ := same
      obtain ⟨middle, rfl⟩ := ih same
      exact ⟨middle, rfl⟩

/-- The error of a text that is not read is the first fault in it. -/
theorem tokenize_eq_error_iff {source : String} {error : SyntaxError} :
    tokenize source = .error error ↔ ∃ (tokens : List Token) (rest : List LexResult),
      (Cursor.ofText source).results = tokens.map .ok ++ .error error :: rest := by
  constructor
  · intro failed
    rcases first_fault_cases (Cursor.ofText source).results with
      ⟨tokens, same⟩ | ⟨tokens, found, rest, same⟩
    · have lexed : tokenize source = .ok tokens := tokenize_eq_ok_iff.2 same
      rw [failed] at lexed
      cases lexed
    · have stopped : tokenize source = .error found := tokenize_eq_error same
      obtain rfl : error = found := Except.error.inj (failed.symm.trans stopped)
      exact ⟨tokens, rest, same⟩
  · intro h
    obtain ⟨tokens, rest, same⟩ := h
    exact tokenize_eq_error same

end SableSyntax
