/- SableSyntax/Proofs/Lexing/Passing
   digest: Any mix of steps of a lexer passes over its text in order, and none gets stuck. -/

import Mathlib.Data.List.ReduceOption
import SableSyntax.Proofs.Lexing.Steps

set_option autoImplicit false
set_option relaxedAutoImplicit false

namespace SableSyntax

namespace LexResult

def isEnd : LexResult → Bool
  | .ok token => token.kind == .endOfInput
  | .error _ => false

def isUnclosed : LexResult → Bool
  | .ok _ => false
  | .error error => error.fault == .unterminatedComment

end LexResult

namespace Takes

variable {place : Location} {rest taken : List Char} {result : LexResult}

theorem eq_endAt (h : Takes place rest taken result) (isEnd : result.isEnd) :
    result = .ok (.endAt place) ∧ taken = [] ∧ rest = [] := by
  cases h with
  | lexeme spelled => exact absurd (beq_iff_eq.1 isEnd) (Spells.ne_endOfInput spelled)
  | stop => exact ⟨rfl, rfl, rfl⟩
  | stray | unclosed => cases isEnd

theorem ne_nil (h : Takes place rest taken result) (notEnd : result.isEnd = false) :
    taken ≠ [] := by
  cases h with
  | lexeme spelled => exact Spells.ne_nil spelled
  | stop => cases notEnd
  | stray | unclosed => exact List.cons_ne_nil _ _

theorem eq_nil_of_isUnclosed (h : Takes place rest taken result) (unclosed : result.isUnclosed) :
    rest = [] := by
  cases h with
  | lexeme | stray => cases unclosed
  | stop | unclosed => rfl

end Takes

/-- How results take a text apart, of which something is left: each of them passes over a gap and
takes what stands behind it, and so all of the text is passed over. -/
inductive Passes (rest : List Char) : Location → List Char → List LexResult → Prop
  | nil {place : Location} : Passes rest place [] []
  | cons {place : Location} {gap taken text : List Char} {result : LexResult}
    {results : List LexResult} (isGap : Gap gap (taken ++ (text ++ rest)))
    (takes : Takes (place.after gap) (text ++ rest) taken result)
    (more : Passes rest ((place.after gap).after taken) text results) :
    Passes rest place (gap ++ (taken ++ text)) (result :: results)

namespace Passes

variable {rest text : List Char} {place : Location} {results : List LexResult} {result : LexResult}

theorem length_le (h : Passes rest place text results)
    (noEnd : ∀ result ∈ results, result.isEnd = false) : results.length ≤ text.length := by
  induction h with
  | nil => exact Nat.le_refl _
  | cons _ takes _ ih =>
    rw [List.forall_mem_cons] at noEnd
    have some := List.length_pos_iff.2 (takes.ne_nil noEnd.1)
    have others := ih noEnd.2
    simp only [List.length_append, List.length_cons]
    omega

theorem rest_eq_nil (h : Passes rest place text results) (member : result ∈ results)
    (isEnd : result.isEnd) : rest = [] := by
  induction h with
  | nil => cases member
  | cons _ takes _ ih =>
    rcases List.mem_cons.1 member with rfl | member
    · exact (List.append_eq_nil_iff.1 (takes.eq_endAt isEnd).2.2).2
    · exact ih member

theorem isEnd_of_nil (h : Passes rest place text results) (nothing : text ++ rest = [])
    (member : result ∈ results) : result.isEnd := by
  induction h with
  | nil => cases member
  | @cons place gap taken text first results _ takes _ ih =>
    simp only [List.append_eq_nil_iff] at nothing ih
    rcases List.mem_cons.1 member with rfl | member
    · by_contra notEnd
      exact takes.ne_nil (by simpa using notEnd) nothing.1.2.1
    · exact ih ⟨nothing.1.2.2, nothing.2⟩ member

theorem countP_isUnclosed_le (h : Passes rest place text results) :
    results.countP LexResult.isUnclosed ≤ 1 := by
  induction h with
  | nil => exact Nat.zero_le _
  | @cons place gap taken text first results _ takes more ih =>
    by_cases unclosed : first.isUnclosed
    · have others : results.countP LexResult.isUnclosed = 0 := by
        rw [List.countP_eq_zero]
        intro result member isUnclosed
        have isEnd := more.isEnd_of_nil (takes.eq_nil_of_isUnclosed unclosed) member
        cases result with
        | ok token => cases isUnclosed
        | error error => cases isEnd
      rw [List.countP_cons_of_pos unclosed, others]
    · rw [List.countP_cons_of_neg unclosed]
      exact ih

theorem ordered (h : Passes rest place text results) :
    (∀ result ∈ results, place.offset ≤ result.span.start.offset) ∧
      results.Pairwise fun first second => first.span.Before second.span := by
  induction h with
  | nil => exact ⟨List.forall_mem_nil _, .nil⟩
  | @cons place gap taken text first results _ takes more ih =>
    have before (result : LexResult) (member : result ∈ results) :
        first.span.Before result.span := by
      have behind := ih.1 result member
      rwa [← show first.span.stop = (place.after gap).after taken from
        congrArg Span.stop takes.span] at behind
    refine ⟨?_, List.pairwise_cons.2 ⟨before, ih.2⟩⟩
    intro result member
    rcases List.mem_cons.1 member with rfl | member
    · rw [takes.span, Location.offset_after]
      exact Nat.le_add_right _ _
    · have behind := ih.1 result member
      rw [Location.offset_after, Location.offset_after] at behind
      omega

end Passes

namespace Lexer

variable {source : String} {lexer : Lexer} {steps : List Step}

def answers : List Step → Lexer → List (Option LexResult)
  | [], _ => []
  | step :: steps, lexer => (step.run lexer).1 :: answers steps (step.run lexer).2

def nextAnswers (steps : List Step) (lexer : Lexer) : List (Option LexResult) :=
  (steps.zip (lexer.answers steps)).filterMap fun (step, answer) =>
    if step = .next then some answer else none

theorem answers_append (first second : List Step) (lexer : Lexer) :
    lexer.answers (first ++ second) =
      lexer.answers first ++ (lexer.after first).answers second := by
  induction first generalizing lexer with
  | nil => rfl
  | cons step first ih =>
    rw [List.cons_append, answers, answers, ih]
    rfl

theorem nextAnswers_cons (step : Step) (steps : List Step) (lexer : Lexer) :
    lexer.nextAnswers (step :: steps) =
      if step = .next then (step.run lexer).1 :: (step.run lexer).2.nextAnswers steps
      else (step.run lexer).2.nextAnswers steps := by
  simp only [nextAnswers, answers, List.zip_cons_cons]
  split
  · next isNext => rw [List.filterMap_cons_some (by rw [if_pos isNext])]
  · next notNext => rw [List.filterMap_cons_none (by rw [if_neg notNext])]

/-- A step other than a reset moves the cursor by one step and answers with its outcome, unless the
stepwise reading is finished and asked to go on. -/
theorem Step.run_cases {step : Step} (noReset : step ≠ .reset) (lexer : Lexer) :
    (step = .next ∧ step.run lexer = (none, lexer)) ∨
      (step.run lexer).1 = some lexer.cursor.step.1 ∧
        (step.run lexer).2.cursor = lexer.cursor.step.2 := by
  cases step with
  | reset => exact absurd rfl noReset
  | nextToken =>
    rw [run, nextToken_eq]
    exact .inr ⟨rfl, rfl⟩
  | next =>
    rw [run, next_eq]
    split
    · exact .inl ⟨rfl, rfl⟩
    · exact .inr ⟨rfl, rfl⟩

theorem exists_passes (noReset : .reset ∉ steps) (lexer : Lexer) :
    ∃ passed, lexer.cursor.rest = passed ++ (lexer.after steps).cursor.rest ∧
      (lexer.after steps).cursor.location = lexer.cursor.location.after passed ∧
      Passes (lexer.after steps).cursor.rest lexer.cursor.location passed
        (lexer.answers steps).reduceOption := by
  induction steps generalizing lexer with
  | nil => exact ⟨[], rfl, rfl, .nil⟩
  | cons step steps ih =>
    rw [List.mem_cons, not_or] at noReset
    have behind : lexer.after (step :: steps) = (step.run lexer).2.after steps := rfl
    obtain ⟨text, whole, place, more⟩ := ih noReset.2 (step.run lexer).2
    rw [behind, answers]
    rcases Step.run_cases (Ne.symm noReset.1) lexer with ⟨-, same⟩ | ⟨answer, moved⟩
    · rw [same, List.reduceOption_cons_of_none]
      rw [same] at whole place more
      exact ⟨text, whole, place, more⟩
    · obtain ⟨gap, taken, rest, result, whole', isGap, takes, stepped⟩ := lexer.cursor.step_takes
      rw [moved, stepped] at whole place more
      rw [answer, stepped, List.reduceOption_cons_of_some]
      simp only at whole place more
      subst whole
      refine ⟨gap ++ (taken ++ text), ?_, ?_, .cons isGap takes more⟩
      · rw [whole', List.append_assoc, List.append_assoc]
      · rw [place, Location.after_append, Location.after_append]

theorem count_nextToken_le (steps : List Step) (lexer : Lexer) :
    steps.count .nextToken ≤ (lexer.answers steps).reduceOption.length := by
  induction steps generalizing lexer with
  | nil => exact Nat.le_refl _
  | cons step steps ih =>
    have others := ih (step.run lexer).2
    rw [answers]
    cases step with
    | nextToken =>
      rw [List.count_cons_self, show (Step.nextToken.run lexer).1 = some lexer.nextToken.1 from rfl,
        List.reduceOption_cons_of_some]
      exact Nat.succ_le_succ others
    | next | reset =>
      rw [List.count_cons_of_ne (by decide)]
      exact Nat.le_trans others
        (List.Sublist.length_le ((List.sublist_cons_self _ _).filterMap id))

theorem finished_nextToken (lexer : Lexer) :
    (Step.nextToken.run lexer).2.finished = lexer.finished := by
  rw [Step.run, nextToken_eq]

theorem nextAnswers_of_finished (noReset : .reset ∉ steps) (finished : lexer.finished) :
    lexer.nextAnswers steps = List.replicate (steps.count .next) none := by
  induction steps generalizing lexer with
  | nil => rfl
  | cons step steps ih =>
    rw [List.mem_cons, not_or] at noReset
    rw [nextAnswers_cons]
    cases step with
    | reset => exact absurd rfl noReset.1
    | nextToken =>
      rw [if_neg (by decide), List.count_cons_of_ne (by decide)]
      exact ih noReset.2 ((finished_nextToken lexer).trans finished)
    | next =>
      have same : Step.next.run lexer = (none, lexer) := by rw [Step.run, next_eq, if_pos finished]
      rw [if_pos rfl, same, ih noReset.2 finished, List.count_cons_self, List.replicate_succ]

theorem exists_token_of_not_isLast {result : LexResult} (h : ¬ isLast result) :
    ∃ token, result = .ok token ∧ token.kind ≠ .endOfInput := by
  cases result with
  | ok token => exact ⟨token, rfl, by simpa [isLast] using h⟩
  | error error => exact absurd rfl h

/-- What the stepwise reading gives, whatever else is asked meanwhile: tokens, then a last result
that is the end of the text or an error, and nothing from then on. -/
theorem exists_nextAnswers_eq (noReset : .reset ∉ steps) (goesOn : lexer.finished = false) :
    ∃ (tokens : List Token) (last : Option LexResult) (count : Nat),
      lexer.nextAnswers steps = tokens.map (fun token => some (.ok token)) ++
        (last.toList.map some ++ List.replicate count none) ∧
      (∀ token ∈ tokens, token.kind ≠ .endOfInput) ∧ (∀ result ∈ last, isLast result) ∧
      (last = none → count = 0) := by
  induction steps generalizing lexer with
  | nil => exact ⟨[], none, 0, rfl, by simp, by simp, by simp⟩
  | cons step steps ih =>
    rw [List.mem_cons, not_or] at noReset
    rw [nextAnswers_cons]
    cases step with
    | reset => exact absurd rfl noReset.1
    | nextToken => exact ih noReset.2 ((finished_nextToken lexer).trans goesOn)
    | next =>
      obtain ⟨result, answer, finished⟩ : ∃ result, (Step.next.run lexer).1 = some result ∧
          (Step.next.run lexer).2.finished = isLast result := by
        rw [Step.run, next_eq, if_neg (by simp [goesOn])]
        exact ⟨_, rfl, rfl⟩
      rw [if_pos rfl, answer]
      by_cases atLast : isLast result
      · refine ⟨[], some result, steps.count .next, ?_, by simp, by simpa, by simp⟩
        rw [nextAnswers_of_finished noReset.2 (finished.trans atLast)]
        rfl
      · obtain ⟨tokens, last, count, shape, noEnd, others⟩ :=
          ih noReset.2 (finished.trans (by simpa using atLast))
        obtain ⟨token, rfl, notEnd⟩ := exists_token_of_not_isLast atLast
        refine ⟨token :: tokens, last, count, ?_, List.forall_mem_cons.2 ⟨notEnd, noEnd⟩, others⟩
        rw [shape]
        rfl

theorem nextToken_of_rest_eq_nil (nothing : lexer.cursor.rest = []) :
    lexer.nextToken = (.ok (.endAt lexer.cursor.location), lexer) := by
  obtain ⟨source, ⟨place, rest⟩, finished⟩ := lexer
  obtain rfl : rest = [] := nothing
  rfl

/-- What holds of the steps that are made of a text without a reset among them: they pass over the
text up to the cursor, with the results they give one behind the other and no more than one comment
among them that is never closed; the stepwise reading gives tokens, a last result and then nothing;
and the end is next behind as many tokens as the text has characters, and behind an earlier end. -/
structure PassesOver (source : String) (steps : List Step) : Prop where
  passes : ∃ passed, source.toList = passed ++ ((ofText source).after steps).cursor.rest ∧
    ((ofText source).after steps).cursor.location = Location.start.after passed ∧
    Passes ((ofText source).after steps).cursor.rest .start passed
      ((ofText source).answers steps).reduceOption
  ordered : ((ofText source).answers steps).reduceOption.Pairwise fun first second =>
    first.span.Before second.span
  unclosed : ((ofText source).answers steps).reduceOption.countP LexResult.isUnclosed ≤ 1
  stepwise : ∃ (tokens : List Token) (last : Option LexResult) (count : Nat),
    (ofText source).nextAnswers steps = tokens.map (fun token => some (.ok token)) ++
      (last.toList.map some ++ List.replicate count none) ∧
    (∀ token ∈ tokens, token.kind ≠ .endOfInput) ∧ (∀ result ∈ last, isLast result) ∧
    (last = none → count = 0)
  ends : (source.length ≤ steps.count .nextToken ∨
      ∃ result ∈ ((ofText source).answers steps).reduceOption, result.isEnd) →
    ((ofText source).after steps).nextToken =
      (.ok (.endAt (Location.start.after source.toList)), (ofText source).after steps)

theorem passesOver (noReset : .reset ∉ steps) : PassesOver source steps := by
  obtain ⟨passed, whole, place, passes⟩ := exists_passes noReset (ofText source)
  refine ⟨⟨passed, whole, place, passes⟩, passes.ordered.2, passes.countP_isUnclosed_le,
    exists_nextAnswers_eq noReset rfl, fun enough => ?_⟩
  have nothing : ((ofText source).after steps).cursor.rest = [] := by
    by_cases atEnd : ∃ result ∈ ((ofText source).answers steps).reduceOption, result.isEnd
    · obtain ⟨result, member, isEnd⟩ := atEnd
      exact passes.rest_eq_nil member isEnd
    · have counted := enough.resolve_right atEnd
      simp only [not_exists, not_and, Bool.not_eq_true] at atEnd
      have taken := passes.length_le atEnd
      have asked := count_nextToken_le steps (ofText source)
      have length := congrArg List.length whole
      rw [show (ofText source).cursor.rest = source.toList from rfl, String.length_toList,
        List.length_append] at length
      rw [← List.length_eq_zero_iff]
      omega
  have stop : passed = source.toList := by rw [nothing, List.append_nil] at whole; exact whole.symm
  rw [nextToken_of_rest_eq_nil nothing, place, stop]
  rfl

theorem progress (placed : lexer.IsPlaced source) (step : Step) {result : LexResult}
    (answer : (step.run lexer).1 = some result) :
    (result.isEnd = false →
      lexer.cursor.location.offset < (step.run lexer).2.cursor.location.offset) ∧
    (result.isEnd → result = .ok (.endAt (Location.start.after source.toList)) ∧
      (step.run lexer).2.cursor.location = Location.start.after source.toList) := by
  have noReset : step ≠ .reset := by
    rintro rfl
    cases answer
  obtain ⟨before, text, location⟩ := placed.2
  obtain ⟨gap, taken, rest, found, whole, -, takes, stepped⟩ := lexer.cursor.step_takes
  rcases step.run_cases noReset lexer with ⟨-, same⟩ | ⟨answer', moved⟩
  · rw [same] at answer
    cases answer
  · rw [answer', stepped] at answer
    obtain rfl : found = result := Option.some.inj answer
    rw [moved, stepped]
    constructor
    · intro notEnd
      have some := byteLength_pos (takes.ne_nil notEnd)
      rw [Location.offset_after, Location.offset_after]
      omega
    · intro isEnd
      obtain ⟨rfl, rfl, rfl⟩ := takes.eq_endAt isEnd
      rw [whole, List.append_nil, List.append_nil] at text
      rw [location, ← Location.after_append, ← text]
      exact ⟨rfl, rfl⟩

/-- Whatever is asked of a lexer, it passes over its text in order. Behind any steps, a reset makes
it as good as new; any token but the end, and any error, moves it on, and the end is found behind
the last byte only. Between resets, what it has passed is made of gaps, the tokens and stray
characters of its results, and one comment at most that is never closed and runs to the end; the
stepwise reading gives tokens, a last result at most that is the end or an error, and nothing from
then on; and the end is next behind as many requests for a token as there are characters, and again
and again once it was found. -/
theorem lexer_passes_over_text (source : String) :
    (∀ before more : List Step, (ofText source).answers (before ++ .reset :: more) =
      (ofText source).answers before ++ none :: (ofText source).answers more) ∧
    (∀ (before : List Step) (step : Step) (result : LexResult),
      (step.run ((ofText source).after before)).1 = some result →
      (result.isEnd = false → ((ofText source).after before).cursor.location.offset <
        (step.run ((ofText source).after before)).2.cursor.location.offset) ∧
      (result.isEnd → result = .ok (.endAt (Location.start.after source.toList)) ∧
        (step.run ((ofText source).after before)).2.cursor.location =
          Location.start.after source.toList)) ∧
    (Location.start.after source.toList).offset = source.utf8ByteSize ∧
    ∀ steps : List Step, .reset ∉ steps → PassesOver source steps := by
  refine ⟨fun before more => ?_, fun before step result answer => ?_, ?_,
    fun steps noReset => passesOver noReset⟩
  · have same := ((isPlaced_ofText source).after before).1
    rw [answers_append, answers, Step.run, reset, same]
  · exact progress ((isPlaced_ofText source).after before) step answer
  · rw [Location.offset_after, byteLength_toList]
    exact Nat.zero_add _

/-- The stepwise reading stops at a stray character, and tokens are still given behind it. -/
theorem lexer_passes_over_text_stray :
    (ofText "a # b").answers [.next, .next, .nextToken, .next, .nextToken, .nextToken] =
      [some (.ok ⟨⟨.identifier, "a"⟩, ⟨⟨0, 1, 1⟩, ⟨1, 1, 2⟩⟩⟩),
        some (.error ⟨.unrecognizedCharacter '#', ⟨⟨2, 1, 3⟩, ⟨3, 1, 4⟩⟩⟩),
        some (.ok ⟨⟨.identifier, "b"⟩, ⟨⟨4, 1, 5⟩, ⟨5, 1, 6⟩⟩⟩), none,
        some (.ok (.endAt ⟨5, 1, 6⟩)), some (.ok (.endAt ⟨5, 1, 6⟩))] ∧
    ((ofText "a # b").after [.next]).cursor.location.offset <
      (Step.next.run ((ofText "a # b").after [.next])).2.cursor.location.offset ∧
    PassesOver "a # b" [.next, .next, .nextToken, .next, .nextToken, .nextToken] := by
  obtain ⟨-, progress, -, between⟩ := lexer_passes_over_text "a # b"
  have stray : (Step.next.run ((ofText "a # b").after [.next])).1 =
      some (.error ⟨.unrecognizedCharacter '#', ⟨⟨2, 1, 3⟩, ⟨3, 1, 4⟩⟩⟩) := by decide +kernel
  exact ⟨by decide +kernel, (progress [.next] .next _ stray).1 rfl, between _ (by decide)⟩

end Lexer

end SableSyntax
