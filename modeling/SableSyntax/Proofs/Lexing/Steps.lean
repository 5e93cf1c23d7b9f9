/- SableSyntax/Proofs/Lexing/Steps
   digest: One step of a cursor: the gap it passes over, the text it takes and where it stands. -/

import SableSyntax.Proofs.Lexing.Splitting
import SableSyntax.Proofs.Text.Places

set_option autoImplicit false
set_option relaxedAutoImplicit false

namespace SableSyntax

def LexResult.span : LexResult → Span
  | .ok token => token.span
  | .error error => error.span

/-- What is taken off a text at a place, apart from the gap before it, with the result that it
gives: a lexeme that does not go on, nothing at the end, a character that nothing starts with, or a
comment that is never closed, with all that follows. -/
inductive Takes (place : Location) : List Char → List Char → LexResult → Prop
  | lexeme {lexeme : Lexeme} {rest : List Char} (spelled : lexeme.WellSpelled)
    (ends : Ends lexeme.kind rest) :
    Takes place rest lexeme.text.toList (.ok (lexeme.placed place))
  | stop : Takes place [] [] (.ok (.endAt place))
  | stray {c : Char} {rest : List Char} (stray : IsStray c) :
    Takes place rest [c] (.error ⟨.unrecognizedCharacter c, ⟨place, place.advance c⟩⟩)
  | unclosed {body : List Char} (unclosed : ¬ ['*', '/'] <:+: body) :
    Takes place [] ('/' :: '*' :: body)
      (.error ⟨.unterminatedComment, ⟨place, place.after ('/' :: '*' :: body)⟩⟩)

namespace Takes

variable {place : Location} {rest taken : List Char} {result : LexResult}

theorem span (h : Takes place rest taken result) : result.span = ⟨place, place.after taken⟩ := by
  cases h <;> rfl

theorem spelled (h : Takes place rest taken result) :
    ∀ token, result = .ok token → token.text.toList = taken := by
  intro token isToken
  cases h <;> cases isToken <;> rfl

theorem of_scan {text : List Char} {found : Scan} (scanned : scan text = .ok found)
    (closed : ¬ OpensGap text) (place : Location) :
    Takes place found.rest found.spelling (.ok ⟨⟨found.kind, String.ofList found.spelling⟩,
      ⟨place, place.after found.spelling⟩⟩) := by
  cases text with
  | nil =>
    cases scanned
    exact .stop
  | cons c text =>
    have spelled := spells_of_scan scanned (List.cons_ne_nil _ _)
    have takes := @lexeme place ⟨found.kind, String.ofList found.spelling⟩ found.rest
      (by rwa [Lexeme.WellSpelled, String.toList_ofList]) (ends_of_scan scanned closed)
    rwa [Lexeme.placed, String.toList_ofList] at takes

end Takes

namespace Cursor

def step (cursor : Cursor) : LexResult × Cursor :=
  match cursor.next with
  | .ok token reached => (.ok token, reached)
  | .error error reached => (.error error, reached)

theorem step_of_ok {cursor reached : Cursor} {token : Token} (h : cursor.next = .ok token reached) :
    cursor.step = (.ok token, reached) := by
  rw [step, h]

theorem step_of_error {cursor reached : Cursor} {error : SyntaxError}
    (h : cursor.next = .error error reached) : cursor.step = (.error error, reached) := by
  rw [step, h]

/-- A step passes over a gap and takes what stands behind it. -/
theorem step_takes (cursor : Cursor) :
    ∃ gap taken rest result, cursor.rest = gap ++ (taken ++ rest) ∧ Gap gap (taken ++ rest) ∧
      Takes (cursor.location.after gap) rest taken result ∧
      cursor.step = (result, ⟨(cursor.location.after gap).after taken, rest⟩) := by
  obtain ⟨gap, text, whole, isGap, stops⟩ := exists_gap cursor.rest
  have next : cursor.next = Cursor.next ⟨cursor.location.after gap, text⟩ := by
    rw [← next_of_gap isGap, ← whole]
  simp only [step, next]
  rcases stops with closed | ⟨body, rfl, unclosed⟩
  · have reached := skipGap_of_not_opensGap closed (cursor.location.after gap)
    simp only [Cursor.next, reached, lexeme]
    cases scanned : scan text with
    | ok found =>
      have same := spelling_append_rest_of_scan scanned
      refine ⟨gap, found.spelling, found.rest, _, by rw [whole, same], same.symm ▸ isGap, ?_, rfl⟩
      exact .of_scan scanned closed _
    | error c =>
      cases text with
      | nil => cases scanned
      | cons d rest =>
        obtain ⟨rfl, stray⟩ := isStray_of_scan scanned closed
        exact ⟨gap, [c], rest, _, whole, isGap, .stray stray, rfl⟩
  · simp only [Cursor.next, skipGap_of_unclosed unclosed]
    exact ⟨gap, '/' :: '*' :: body, [], _, by simpa using whole, by simpa using isGap,
      .unclosed unclosed, rfl⟩

theorem step_cases (cursor : Cursor) :
    ∃ gap taken rest result, cursor.rest = gap ++ (taken ++ rest) ∧ Gap gap (taken ++ rest) ∧
      cursor.step = (result, ⟨(cursor.location.after gap).after taken, rest⟩) ∧
      result.span = ⟨cursor.location.after gap, (cursor.location.after gap).after taken⟩ ∧
      ∀ token, result = .ok token → token.text.toList = taken := by
  obtain ⟨gap, taken, rest, result, whole, isGap, takes, stepped⟩ := cursor.step_takes
  exact ⟨gap, taken, rest, result, whole, isGap, stepped, takes.span, takes.spelled⟩

theorem offset_lt_of_next {cursor reached : Cursor} {token : Token}
    (h : cursor.next = .ok token reached) (notEnd : token.kind ≠ .endOfInput) :
    token.span.start.offset < token.span.stop.offset := by
  have notEmpty := (wellSpelled_of_next h notEnd).ne_nil
  obtain ⟨gap, taken, rest, result, -, -, stepped, span, spelled⟩ := cursor.step_cases
  obtain ⟨rfl, -⟩ := Prod.mk.inj ((step_of_ok h).symm.trans stepped)
  rw [spelled token rfl] at notEmpty
  have starts : token.span.start = cursor.location.after gap := congrArg Span.start span
  have stops : token.span.stop = (cursor.location.after gap).after taken := congrArg Span.stop span
  have long := byteLength_pos notEmpty
  rw [starts, stops, Location.offset_after _ taken]
  omega

/-- Whether a cursor stands in a text: it is at the place behind a part that the text starts with,
and all of what follows that part is left. -/
def IsIn (text : List Char) (cursor : Cursor) : Prop :=
  ∃ before, text = before ++ cursor.rest ∧ cursor.location = Location.start.after before

theorem isIn_ofText (source : String) : (ofText source).IsIn source.toList := ⟨[], rfl, rfl⟩

variable {text : List Char} {cursor : Cursor}

/-- What is left to a cursor is what its offset cuts off the text. -/
theorem IsIn.cutBytes? (h : cursor.IsIn text) :
    ∃ before, cutBytes? cursor.location.offset text = some (before, cursor.rest) := by
  obtain ⟨before, whole, place⟩ := h
  refine ⟨before, cutBytes?_eq_some_iff.2 ⟨whole, ?_⟩⟩
  rw [place, Location.start_after]

/-- What a step comes to in a text: a stretch of the text behind the cursor, with the cursor moved
to its end. A token has the text that it covers. -/
structure Advances (text : List Char) (cursor : Cursor) (result : LexResult) (reached : Cursor) :
    Prop where
  isIn : reached.IsIn text
  span : result.span.IsIn text
  starts : cursor.location.offset ≤ result.span.start.offset
  stops : result.span.stop.offset = reached.location.offset
  covers : ∀ token, result = .ok token → token.span.slice? text = some token.text.toList

theorem IsIn.advances {result : LexResult} {reached : Cursor} (h : cursor.IsIn text)
    (same : cursor.step = (result, reached)) : Advances text cursor result reached := by
  obtain ⟨before, whole, place⟩ := h
  obtain ⟨gap, taken, rest, result', rest_eq, -, same', span, spelled⟩ := cursor.step_cases
  obtain ⟨rfl, rfl⟩ := Prod.mk.inj (same.symm.trans same')
  rw [rest_eq] at whole
  have whole' : text = before ++ gap ++ (taken ++ rest) := by rw [whole, List.append_assoc]
  rw [place, ← Location.after_append] at span
  refine ⟨⟨before ++ gap ++ taken, ?_, ?_⟩, ?_, ?_, ?_, ?_⟩
  · simp [whole]
  · simp only [place, Location.after_append]
  · rw [span]
    exact Span.isIn_after whole'
  · rw [span, place, Location.after_append]
    simp
  · rw [span, place, Location.after_append]
  · rintro token rfl
    rw [spelled token rfl, show token.span = _ from span]
    exact Span.slice?_after whole'

/-- Whether a result is taken off a text, behind a part that the text starts with. -/
def IsTakenFrom (text : List Char) (result : LexResult) : Prop :=
  ∃ before taken behind, text = before ++ (taken ++ behind) ∧
    Takes (Location.start.after before) behind taken result

theorem IsIn.isTakenFrom (h : cursor.IsIn text) : IsTakenFrom text cursor.step.1 := by
  obtain ⟨before, whole, place⟩ := h
  obtain ⟨gap, taken, rest, result, rest_eq, -, takes, stepped⟩ := cursor.step_takes
  rw [place, ← Location.after_append] at takes
  rw [stepped]
  exact ⟨before ++ gap, taken, rest, by rw [whole, rest_eq, List.append_assoc], takes⟩

end Cursor

/-- Results that lie in a text behind an offset, one behind the other. -/
structure LaidOut (text : List Char) (offset : Nat) (results : List LexResult) : Prop where
  isIn : ∀ result ∈ results, result.span.IsIn text
  ordered : results.Pairwise fun first second => first.span.Before second.span
  behind : ∀ result ∈ results, offset ≤ result.span.start.offset

namespace LaidOut

variable {text : List Char} {offset : Nat} {result : LexResult} {first second : List LexResult}

theorem nil : LaidOut text offset [] := ⟨List.forall_mem_nil _, .nil, List.forall_mem_nil _⟩

theorem cons (isIn : result.span.IsIn text) (starts : offset ≤ result.span.start.offset)
    (rest : LaidOut text result.span.stop.offset second) :
    LaidOut text offset (result :: second) := by
  refine ⟨?_, List.pairwise_cons.2 ⟨rest.behind, rest.ordered⟩, ?_⟩
  · simpa using ⟨isIn, rest.isIn⟩
  · have ordered := isIn.ordered
    simp only [List.mem_cons]
    rintro other (rfl | member)
    · exact starts
    · have := rest.behind other member
      omega

theorem append {offset' : Nat} (before : LaidOut text offset first)
    (behind : LaidOut text offset' second) (le : offset ≤ offset')
    (ends : ∀ result ∈ first, result.span.stop.offset ≤ offset') :
    LaidOut text offset (first ++ second) := by
  refine ⟨?_, List.pairwise_append.2 ⟨before.ordered, behind.ordered, ?_⟩, ?_⟩
  · exact List.forall_mem_append.2 ⟨before.isIn, behind.isIn⟩
  · exact fun result member other member' =>
      Nat.le_trans (ends result member) (behind.behind other member')
  · exact List.forall_mem_append.2
      ⟨before.behind, fun result member => Nat.le_trans le (behind.behind result member)⟩

theorem of_append (h : LaidOut text offset (first ++ second)) :
    LaidOut text offset first ∧ LaidOut text offset second := by
  obtain ⟨before, behind, -⟩ := List.pairwise_append.1 h.ordered
  refine ⟨⟨fun result member => ?_, before, fun result member => ?_⟩,
    ⟨fun result member => ?_, behind, fun result member => ?_⟩⟩
  · exact h.isIn result (List.mem_append_left _ member)
  · exact h.behind result (List.mem_append_left _ member)
  · exact h.isIn result (List.mem_append_right _ member)
  · exact h.behind result (List.mem_append_right _ member)

end LaidOut

theorem Cursor.IsIn.laidOut_results {text : List Char} {cursor : Cursor} (h : cursor.IsIn text) :
    LaidOut text cursor.location.offset cursor.results := by
  induction cursor using Cursor.results.induct with
  | case1 cursor error reached next ih =>
    have stepped := h.advances (Cursor.step_of_error next)
    rw [Cursor.results_of_error next]
    refine .cons stepped.span stepped.starts ?_
    rw [stepped.stops]
    exact ih stepped.isIn
  | case2 cursor token reached next atEnd =>
    have stepped := h.advances (Cursor.step_of_ok next)
    rw [Cursor.results_of_end next atEnd]
    exact .cons stepped.span stepped.starts .nil
  | case3 cursor token reached next notEnd ih =>
    have stepped := h.advances (Cursor.step_of_ok next)
    rw [Cursor.results_of_token next notEnd]
    refine .cons stepped.span stepped.starts ?_
    rw [stepped.stops]
    exact ih stepped.isIn

theorem Cursor.IsIn.isTakenFrom_of_mem_results {text : List Char} {cursor : Cursor}
    (h : cursor.IsIn text) {result : LexResult} (member : result ∈ cursor.results) :
    IsTakenFrom text result := by
  induction cursor using Cursor.results.induct with
  | case1 cursor error reached next ih =>
    have stepped := h.isTakenFrom
    rw [Cursor.step_of_error next] at stepped
    rw [Cursor.results_of_error next] at member
    rcases List.mem_cons.1 member with rfl | member
    · exact stepped
    · exact ih (h.advances (Cursor.step_of_error next)).isIn member
  | case2 cursor token reached next atEnd =>
    have stepped := h.isTakenFrom
    rw [Cursor.step_of_ok next] at stepped
    rw [Cursor.results_of_end next atEnd] at member
    exact List.mem_singleton.1 member ▸ stepped
  | case3 cursor token reached next notEnd ih =>
    have stepped := h.isTakenFrom
    rw [Cursor.step_of_ok next] at stepped
    rw [Cursor.results_of_token next notEnd] at member
    rcases List.mem_cons.1 member with rfl | member
    · exact stepped
    · exact ih (h.advances (Cursor.step_of_ok next)).isIn member

theorem Cursor.IsIn.slice?_of_mem_results {text : List Char} {cursor : Cursor}
    (h : cursor.IsIn text) {token : Token} (member : .ok token ∈ cursor.results) :
    token.span.slice? text = some token.text.toList := by
  obtain ⟨before, taken, behind, whole, takes⟩ := h.isTakenFrom_of_mem_results member
  rw [takes.spelled token rfl, show token.span = _ from takes.span]
  exact Span.slice?_after whole

namespace Lexer

inductive Step
  | next | nextToken | reset
  deriving DecidableEq, Repr

def Step.run : Step → Lexer → Option LexResult × Lexer
  | .next, lexer => lexer.next
  | .nextToken, lexer => (some lexer.nextToken.1, lexer.nextToken.2)
  | .reset, lexer => (none, lexer.reset)

def after (steps : List Step) (lexer : Lexer) : Lexer :=
  steps.foldl (fun lexer step => (step.run lexer).2) lexer

/-- Whether a lexer stands in its own text. -/
def IsPlaced (source : String) (lexer : Lexer) : Prop :=
  lexer.source = source ∧ lexer.cursor.IsIn source.toList

theorem isPlaced_ofText (source : String) : (ofText source).IsPlaced source :=
  ⟨rfl, Cursor.isIn_ofText source⟩

variable {source : String} {lexer : Lexer}

theorem nextToken_eq (lexer : Lexer) :
    lexer.nextToken = (lexer.cursor.step.1, { lexer with cursor := lexer.cursor.step.2 }) := by
  unfold nextToken Cursor.step
  cases lexer.cursor.next <;> rfl

theorem next_eq (lexer : Lexer) : lexer.next =
    if lexer.finished then (none, lexer)
    else (some lexer.cursor.step.1,
      { lexer with cursor := lexer.cursor.step.2, finished := isLast lexer.cursor.step.1 }) := by
  rw [next, nextToken_eq]

theorem IsPlaced.run (h : lexer.IsPlaced source) (step : Step) :
    (step.run lexer).2.IsPlaced source ∧ ∀ result ∈ (step.run lexer).1,
      result.span.IsIn source.toList ∧
      ∀ token, result = .ok token → token.span.slice? source.toList = some token.text.toList := by
  have advances := h.2.advances (rfl : lexer.cursor.step = (lexer.cursor.step.1, _))
  cases step with
  | reset => exact ⟨h.1 ▸ isPlaced_ofText _, by simp [Step.run]⟩
  | nextToken =>
    simp only [Step.run, nextToken_eq, Option.mem_some_iff, forall_eq']
    exact ⟨⟨h.1, advances.isIn⟩, advances.span, advances.covers⟩
  | next =>
    simp only [Step.run, next_eq]
    split
    · exact ⟨h, by simp⟩
    · simp only [Option.mem_some_iff, forall_eq']
      exact ⟨⟨h.1, advances.isIn⟩, advances.span, advances.covers⟩

theorem IsPlaced.after (h : lexer.IsPlaced source) (steps : List Step) :
    (lexer.after steps).IsPlaced source := by
  induction steps generalizing lexer with
  | nil => exact h
  | cons step steps ih => exact ih (h.run step).1

end Lexer

end SableSyntax
