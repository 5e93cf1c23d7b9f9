/- SableSyntax/Proofs/Parsing/Rendering
   digest: A rendered error shows the line it is on, with marks under the text it is about. -/

import SableSyntax.Diagnostic
import SableSyntax.Proofs.Parsing.FirstError
import SableSyntax.Proofs.Parsing.ReportedPlaces
import SableSyntax.Proofs.Text.Counters
import SableSyntax.Proofs.Text.Lines

set_option autoImplicit false
set_option relaxedAutoImplicit false

namespace SableSyntax

open Cursor (IsTakenFrom)

section Reports

variable {text : List Char} {state : ParserState}

namespace ParserState

theorem stable_isTakenFrom (text : List Char) : Stable fun state =>
    state.cursor.IsIn text ∧ ∀ token ∈ state.lookahead, IsTakenFrom text (.ok token) := by
  refine .of_steady (.of_steps ?_ ?_ ?_ ?_) fun _ h => h
  · exact fun h next => ⟨(h.1.advances (Cursor.step_of_error next)).isIn, h.2⟩
  · exact fun h next => ⟨(h.1.advances (Cursor.step_of_ok next)).isIn, h.2⟩
  · intro state token cursor h next
    have taken := h.1.isTakenFrom
    rw [Cursor.step_of_ok next] at taken
    exact ⟨(h.1.advances (Cursor.step_of_ok next)).isIn,
      List.forall_mem_append.2 ⟨h.2, List.forall_mem_singleton.2 taken⟩⟩
  · intro state token rest h ahead
    exact ⟨h.1, fun other member => h.2 other (ahead ▸ List.mem_cons_of_mem _ member)⟩

theorem isTakenFrom_of_mem_ahead (cursor : state.cursor.IsIn text)
    (buffered : ∀ token ∈ state.lookahead, IsTakenFrom text (.ok token)) {result : LexResult}
    (member : result ∈ state.ahead) : IsTakenFrom text result := by
  have all := (isPrefix_aheadOf state.lookahead state.cursor.results).subset member
  rcases List.mem_append.1 all with listed | listed
  · obtain ⟨token, isBuffered, rfl⟩ := List.mem_map.1 listed
    exact buffered token isBuffered
  · exact cursor.isTakenFrom_of_mem_results listed

end ParserState

/-- The errors of a text: that of its tokens, that of its program, and those of calls that are made
behind any other calls, failed or not. -/
inductive Reported (source : String) (error : SyntaxError) : Prop
  | tokens (failed : tokenize source = .error error)
  | program (failed : parse source = .error error)
  | call (calls : List Parser.Call) (call : Parser.Call)
    (failed : (call.reader.step (Parser.after calls (.ofText source))).1 = .error error)

theorem Reported.exists_blames {source : String} {error : SyntaxError}
    (reported : Reported source error) :
    ∃ result, IsTakenFrom source.toList result ∧ Blames result error := by
  have called (calls : List Parser.Call) (call : Parser.Call)
      (failed : (call.reader.step (Parser.after calls (.ofText source))).1 = .error error) :
      ∃ result, IsTakenFrom source.toList result ∧ Blames result error := by
    obtain ⟨cursor, buffered⟩ := Parser.invariant_after
      (ParserState.stable_isTakenFrom source.toList) calls
      (⟨Cursor.isIn_ofText source, List.forall_mem_nil _⟩ :
        (ParserState.ofText source).cursor.IsIn source.toList ∧ _)
    obtain ⟨result, member, blames⟩ := call.exists_blames failed
    exact ⟨result, ParserState.isTakenFrom_of_mem_ahead cursor buffered member, blames⟩
  cases reported with
  | tokens failed =>
    obtain ⟨tokens, rest, same⟩ := tokenize_eq_error_iff.1 failed
    exact ⟨.error error,
      (Cursor.isIn_ofText source).isTakenFrom_of_mem_results (by rw [same]; simp), .fault error⟩
  | program failed => exact called [] .program failed
  | call calls call failed => exact called calls call failed

end Reports

namespace Takes

variable {place : Location} {rest taken : List Char} {result : LexResult}

theorem not_isBlank_head (h : Takes place rest taken result) : ∀ c ∈ taken.head?, ¬ isBlank c := by
  cases h with
  | lexeme spelled =>
    exact fun c first => Spells.not_isBlank spelled c (List.mem_of_mem_head? first)
  | stop => simp
  | stray stray => simpa using stray.1
  | unclosed => simp; decide

theorem eq_endAt_of_nil (h : Takes place rest taken result) (nothing : taken = []) :
    result = .ok (.endAt place) ∧ rest = [] := by
  cases h with
  | lexeme spelled => exact absurd nothing (Spells.ne_nil spelled)
  | stop => exact ⟨rfl, rfl⟩
  | stray | unclosed => cases nothing

theorem not_isBlank (h : Takes place rest taken result) :
    (∀ c ∈ taken, ¬ isBlank c) ∨ rest = [] := by
  cases h with
  | lexeme spelled => exact .inl (Spells.not_isBlank spelled)
  | stray stray => exact .inl (by simpa using stray.1)
  | stop | unclosed => exact .inr rfl

end Takes

namespace Diagnostic

def gutter (diagnostic : Diagnostic) : String :=
  blanks (toString diagnostic.span.start.line).length

def header (diagnostic : Diagnostic) (filename : String) : String :=
  toString diagnostic.severity ++ ": " ++ diagnostic.message ++ "\n" ++
    diagnostic.gutter ++ "--> " ++ filename ++ ":" ++ toString diagnostic.span.start ++ "\n"

def footer (diagnostic : Diagnostic) : String :=
  String.join (diagnostic.notes.map fun note => diagnostic.gutter ++ " = note: " ++ note ++ "\n")

/-- A line with its number, and a number of marks below it from the column of the diagnostic on. -/
def marked (diagnostic : Diagnostic) (line : List Char) (width : Nat) : String :=
  diagnostic.gutter ++ " |\n" ++
    toString diagnostic.span.start.line ++ " | " ++ String.ofList line ++ "\n" ++
    diagnostic.gutter ++ " | " ++ blanks (diagnostic.span.start.column - 1) ++
    String.ofList (List.replicate width '^') ++ "\n"

theorem render_eq (diagnostic : Diagnostic) (filename source : String) :
    diagnostic.render filename source = diagnostic.header filename ++
      (match (lines source.toList)[diagnostic.span.start.line - 1]? with
        | some line => diagnostic.marked line (markWidth diagnostic.span)
        | none => "") ++ diagnostic.footer := rfl

end Diagnostic

/-- How an error is shown beside the line it is on: marks stand under the text that it is about
where this is a part of one line, and one mark under or right behind the line where it is not. -/
structure Shows (source filename : String) (error : SyntaxError) (above line below : List Char)
    (width : Nat) : Prop where
  lineAt : LineAt source.toList error.location.offset above line below
  rendered : (Diagnostic.ofError error).render filename source =
    (Diagnostic.ofError error).header filename ++
      (Diagnostic.ofError error).marked (shownLine line below) width ++
      (Diagnostic.ofError error).footer
  marks : 1 ≤ width
  inLine : error.span.start.offset < error.span.stop.offset →
    error.span.start.line = error.span.stop.line →
      error.span.slice? source.toList =
        some (((shownLine line below).drop (error.location.column - 1)).take width) ∧
      error.location.column - 1 + width ≤ (shownLine line below).length
  other : ¬ (error.span.start.offset < error.span.stop.offset ∧
    error.span.start.line = error.span.stop.line) →
      width = 1 ∧ error.location.column ≤ (shownLine line below).length + 1

section Lines

variable {text before taken behind above tail below : List Char} {result : LexResult}

theorem exists_tail_eq (same : taken ++ behind = tail ++ below) (inLine : '\n' ∉ taken)
    (closes : ∀ c ∈ below.head?, c = '\n') :
    ∃ more, tail = taken ++ more ∧ behind = more ++ below := by
  rcases List.append_eq_append_iff.1 same with ⟨more, rfl, rfl⟩ | ⟨beyond, rfl, rfl⟩
  · exact ⟨more, rfl, rfl⟩
  · cases beyond with
    | nil => exact ⟨[], by simp, by simp⟩
    | cons c beyond =>
      obtain rfl : c = '\n' := closes c rfl
      simp at inLine

variable {place : Location} (takes : Takes place behind taken result)
  (same : taken ++ behind = tail ++ below) (closes : ∀ c ∈ below.head?, c = '\n')

include takes same closes

theorem exists_shownLine_eq (nonempty : taken ≠ []) (inLine : '\n' ∉ taken) (front : List Char) :
    ∃ more, shownLine (front ++ tail) below = front ++ (taken ++ more) := by
  obtain ⟨more, rfl, rest⟩ := exists_tail_eq same inLine closes
  rw [shownLine]
  split
  · exact ⟨more, rfl⟩
  · next feeds =>
    have kept : (front ++ taken).getLast? ≠ some '\r' := by
      rcases takes.not_isBlank with plain | atEnd
      · intro last
        rw [List.getLast?_append_of_ne_nil _ nonempty] at last
        exact plain '\r' (List.mem_of_getLast? last) (by decide)
      · exact absurd (List.append_eq_nil_iff.1 (rest.symm.trans atEnd)).2 feeds
    obtain ⟨more', same'⟩ := exists_withoutReturn_append kept more
    exact ⟨more', by rw [← List.append_assoc, same', List.append_assoc]⟩

theorem length_le_shownLine (front : List Char) :
    front.length ≤ (shownLine (front ++ tail) below).length := by
  rw [shownLine]
  split
  · rw [List.length_append]
    exact Nat.le_add_right _ _
  · next feeds =>
    have some : 0 < tail.length := by
      rw [List.length_pos_iff]
      rintro rfl
      cases taken with
      | nil => exact feeds (same.symm.trans (takes.eq_endAt_of_nil rfl).2)
      | cons c taken =>
        obtain rfl : c = '\n' := closes c (by rw [← List.nil_append below, ← same]; rfl)
        exact takes.not_isBlank_head '\n' rfl (by decide)
    have kept := length_le_withoutReturn (front ++ tail)
    rw [List.length_append] at kept
    omega

end Lines

section Marks

variable {source filename : String} {error : SyntaxError} {before taken behind : List Char}
  {result : LexResult}

theorem Diagnostic.le_markWidth (span : Span) : 1 ≤ markWidth span := by
  rw [markWidth]
  split
  · exact Nat.le_max_left _ _
  · exact Nat.le_refl _

theorem Diagnostic.markWidth_of_inLine {place : Location} (nonempty : taken ≠ [])
    (inLine : '\n' ∉ taken) : markWidth ⟨place, place.after taken⟩ = taken.length := by
  have some := List.length_pos_iff.2 nonempty
  have line : (place.after taken).line = place.line := by
    rw [Location.line_after, List.count_eq_zero_of_not_mem inLine, Nat.add_zero]
  rw [markWidth, if_pos line, Location.column_after_of_inLine inLine, Nat.add_sub_cancel_left]
  exact Nat.max_eq_right some

theorem Diagnostic.markWidth_of_not_inLine {place : Location}
    (other : ¬ (taken ≠ [] ∧ '\n' ∉ taken)) : markWidth ⟨place, place.after taken⟩ = 1 := by
  by_cases nonempty : taken = []
  · rw [nonempty, Location.after_nil, markWidth, if_pos rfl, Nat.sub_self]
    rfl
  · rw [markWidth, if_neg]
    rw [eq_comm, Location.line_eq_after_iff]
    exact fun inLine => other ⟨nonempty, inLine⟩

theorem shows_of_takes (whole : source.toList = before ++ (taken ++ behind))
    (takes : Takes (Location.start.after before) behind taken result)
    (covers : error.span = result.span) :
    (taken ++ behind = [] ∧ EndsLine before ∧
      (Diagnostic.ofError error).render filename source =
        (Diagnostic.ofError error).header filename ++ (Diagnostic.ofError error).footer) ∨
    (¬ (taken ++ behind = [] ∧ EndsLine before) ∧
      ∃ above line below width, Shows source filename error above line below width) := by
  obtain ⟨above, tail, below, cut, same, counts, lineAt⟩ := exists_lineAt before (taken ++ behind)
  have span : error.span = ⟨Location.start.after before,
      (Location.start.after before).after taken⟩ := covers.trans takes.span
  have place : error.location = Location.start.after before := congrArg Span.start span
  have number : error.span.start.line - 1 = above.count '\n' := by
    rw [span, Location.start_after, counts, Nat.add_sub_cancel_left]
  have found := lineAt.getElem?_lines
  rw [← whole, ← number] at found
  have rendered := (Diagnostic.ofError error).render_eq filename source
  rw [show (Diagnostic.ofError error).span = error.span from rfl, found] at rendered
  by_cases nothing : lastLine before ++ tail ++ below = []
  · rw [if_pos nothing] at rendered
    rw [List.append_assoc, List.append_eq_nil_iff] at nothing
    refine .inl ⟨same.trans nothing.2, ?_, by simpa using rendered⟩
    rw [cut, nothing.1, List.append_nil]
    exact lineAt.opens
  · rw [if_neg nothing] at rendered
    have column : error.location.column - 1 = (lastLine before).length := by
      rw [place, Location.start_after, Nat.add_sub_cancel_left]
    refine .inr ⟨fun atEnd => nothing ?_, above, lastLine before ++ tail, below,
      Diagnostic.markWidth error.span, ⟨?_, rendered, Diagnostic.le_markWidth _, ?_, ?_⟩⟩
    · rw [atEnd.2.lastLine_eq, List.nil_append, ← same, atEnd.1]
    · rw [whole, place, Location.start_after]
      exact lineAt
    · rw [span]
      intro bytes oneLine
      have nonempty := (Location.offset_lt_after_iff _).1 bytes
      have inLine := (Location.line_eq_after_iff _).1 oneLine
      obtain ⟨more, shown⟩ :=
        exists_shownLine_eq takes same lineAt.closes nonempty inLine (lastLine before)
      rw [column, shown, Diagnostic.markWidth_of_inLine nonempty inLine, List.drop_left,
        List.take_left]
      refine ⟨Span.slice?_after whole, ?_⟩
      simp only [List.length_append]
      omega
    · rw [span, Location.offset_lt_after_iff, Location.line_eq_after_iff]
      intro other
      have front := length_le_shownLine takes same lineAt.closes (lastLine before)
      exact ⟨Diagnostic.markWidth_of_not_inLine other, by omega⟩

end Marks

/-- A rendered error points at the text that it is about. There is a line to show unless the error
is at the end of a text that is empty or ends with a line feed; it says then that the text breaks
off, and is shown with its notes alone. In any other case the line is the one that holds the offset
of the error, without a carriage return before its line feed, and below it stand blanks up to the
column of the error, then marks: as many as the error has characters, which are those of the line
from that column on, if it is about a part of one line; else a single one, under a character of the
line or directly behind the last. -/
structure PointsAtText (source filename : String) (error : SyntaxError) : Prop where
  atEnd : error.location.offset = source.utf8ByteSize ∧ EndsLine source.toList →
    error.fault.IsUnexpectedEnd ∧ (Diagnostic.ofError error).render filename source =
      (Diagnostic.ofError error).header filename ++ (Diagnostic.ofError error).footer
  beside : ¬ (error.location.offset = source.utf8ByteSize ∧ EndsLine source.toList) →
    ∃ above line below width, Shows source filename error above line below width

theorem Reported.pointsAtText {source : String} {error : SyntaxError} (filename : String)
    (reported : Reported source error) : PointsAtText source filename error := by
  obtain ⟨result, ⟨before, taken, behind, whole, takes⟩, blames⟩ := reported.exists_blames
  have covers := blames.span_eq
  have offset : error.location.offset = byteLength before := by
    rw [SyntaxError.location, covers, takes.span, Location.start_after]
  have atEnd : error.location.offset = source.utf8ByteSize ∧ EndsLine source.toList ↔
      taken ++ behind = [] ∧ EndsLine before := by
    rw [offset, ← byteLength_toList, whole, byteLength_append before]
    constructor
    · rintro ⟨last, ends⟩
      have nothing : taken ++ behind = [] := by
        by_contra some
        have := byteLength_pos some
        omega
      rw [nothing, List.append_nil] at ends
      exact ⟨nothing, ends⟩
    · rintro ⟨nothing, ends⟩
      rw [nothing, List.append_nil]
      exact ⟨rfl, ends⟩
  rcases shows_of_takes whole takes covers with ⟨nothing, ends, rendered⟩ | ⟨notEnd, shows⟩
  · refine ⟨fun _ => ⟨?_, rendered⟩, fun notEnd => absurd (atEnd.2 ⟨nothing, ends⟩) notEnd⟩
    obtain ⟨rfl, -⟩ := takes.eq_endAt_of_nil (List.append_eq_nil_iff.1 nothing).1
    cases blames with
    | token _ ends => exact ends.2 rfl
  · exact ⟨fun isAtEnd => absurd (atEnd.1 isAtEnd) notEnd, fun _ => shows⟩

/-- The errors that are returned when lines and columns are counted in 32 bits. What is read does
not depend on the counters, so that they are the errors of the text at the places which are
counted; none is returned where a counter has to stop on the way to it. -/
def Returned (overflow : Overflow) (source : String) (error : SyntaxError) : Prop :=
  ∃ exact, Reported source exact ∧ exact.tracked? overflow source.toList = some error

theorem Reported.span_isIn {source : String} {error : SyntaxError}
    (reported : Reported source error) : error.span.IsIn source.toList := by
  obtain ⟨result, ⟨before, taken, behind, whole, takes⟩, blames⟩ := reported.exists_blames
  rw [blames.span_eq, takes.span]
  exact Span.isIn_after whole

theorem Reported.returned {source : String} {error : SyntaxError} (overflow : Overflow)
    (reported : Reported source error) (small : source.utf8ByteSize + 1 < UInt32.size) :
    Returned overflow source error :=
  ⟨error, reported, SyntaxError.tracked?_of_small reported.span_isIn overflow
    ((byteLength_toList source).symm ▸ small)⟩

end SableSyntax
