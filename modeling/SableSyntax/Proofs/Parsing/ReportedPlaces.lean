/- SableSyntax/Proofs/Parsing/ReportedPlaces
   digest: Every place that is ever reported lies in the text and can be cut out of it. -/

import SableSyntax.Proofs.Lexing.Inside
import SableSyntax.Proofs.Parsing.Calls
import SableSyntax.Proofs.Parsing.StatePlaces

set_option autoImplicit false
set_option relaxedAutoImplicit false

namespace SableSyntax

variable {text : List Char}

theorem Span.Extends.isIn {span : Span} {tokens : List Token} {offset : Nat}
    (extent : span.Extends tokens) (laid : LaidOut text offset (tokens.map .ok)) :
    span.IsIn text := by
  obtain ⟨first, head, starts⟩ := Option.map_eq_some_iff.1 extent.starts
  obtain ⟨last, tail, stops⟩ := Option.map_eq_some_iff.1 extent.stops
  obtain ⟨rest, rfl⟩ := List.head?_eq_some_iff.1 head
  have isIn (token : Token) (member : token ∈ first :: rest) : token.span.IsIn text :=
    laid.isIn (.ok token) (List.mem_map_of_mem member)
  have member := List.mem_of_getLast? tail
  have firstIn := isIn first List.mem_cons_self
  have lastIn := isIn last member
  have ordered : first.span.start.offset ≤ last.span.stop.offset := by
    rcases List.mem_cons.1 member with rfl | member
    · exact firstIn.ordered
    · have before := (List.pairwise_cons.1 laid.ordered).1 _ (List.mem_map_of_mem member)
      exact Nat.le_trans firstIn.ordered (Nat.le_trans before lastIn.ordered)
  rw [starts, stops] at ordered
  exact ⟨starts ▸ firstIn.start, stops ▸ lastIn.stop, ordered⟩

theorem Outline.Covers.isIn {outline : Outline} {tokens : List Token} {offset : Nat}
    (covers : outline.Covers tokens) (laid : LaidOut text offset (tokens.map .ok)) :
    ∀ span ∈ outline.spans, span.IsIn text := by
  induction covers with
  | nil => simp [Outline.spans]
  | @node skipped front others span inside behind extent inner rest ih ih' =>
    rw [List.map_append, List.map_append] at laid
    have front := laid.of_append.2.of_append.1
    simp only [Outline.spans, List.mem_cons, List.mem_append]
    rintro other (rfl | member | member)
    · exact extent.isIn front
    · exact ih front other member
    · exact ih' laid.of_append.2.of_append.2 other member

theorem Blames.span_eq {result : LexResult} {error : SyntaxError} (blames : Blames result error) :
    error.span = result.span := by
  cases blames with
  | fault => rfl
  | token covers => exact covers

namespace Parser

theorem Call.exists_blames (call : Call) {state : ParserState} {error : SyntaxError}
    (failed : (call.reader.step state).1 = .error error) :
    ∃ result ∈ state.ahead, Blames result error := by
  have places := call.places state
  unfold Places Runs at places
  unfold step at failed
  cases read : call.reader state with
  | ok node reached =>
    rw [read] at failed
    cases failed
  | error found reached =>
    simp only [read] at places failed
    obtain rfl : found = error := Except.error.inj failed
    obtain ⟨used, result, rest, ahead, blames, -⟩ := places
    exact ⟨result, by rw [ahead]; simp, blames⟩

/-- The stretches that the outcome of a call speaks of: those of all nodes, or that of the error. -/
def Call.spans (call : Call) : Except SyntaxError call.Node → List Span
  | .ok node => (call.outline node).spans
  | .error error => [error.span]

theorem Call.spans_isIn (call : Call) {state : ParserState} (h : state.IsIn text) :
    ∀ span ∈ call.spans (call.reader.step state).1, span.IsIn text := by
  have laid := h.laidOut_ahead
  have places := call.places state
  unfold Places Runs at places
  unfold step
  cases hread : call.reader state with
  | ok node reached =>
    simp only [hread] at places ⊢
    obtain ⟨used, took, covers | ⟨stop, ends, empty⟩, -⟩ := places
    · rw [took.ahead_eq] at laid
      exact covers.isIn laid.of_append.1
    · rw [took.ahead_eq, ends] at laid
      have stopIn := laid.of_append.2.isIn (.ok stop) (List.mem_singleton_self _)
      simp only [spans, empty, Outline.single, Outline.spans, List.append_nil, List.mem_singleton,
        forall_eq]
      exact .point stopIn.start
  | error error reached =>
    have failed : (call.reader.step state).1 = .error error := by rw [step, hread]
    obtain ⟨result, member, blames⟩ := call.exists_blames failed
    simp only [spans, List.mem_singleton, forall_eq]
    exact blames.span_eq ▸ laid.isIn result member

end Parser

/-- The text can be cut inside a step as well: wherever the skipping of a gap comes by, and behind
any number of characters from there. The skipping ends at such a place, and what is scanned there
is as many of the next characters as it has. -/
theorem Lexer.cuts_inside_steps (source : String) (steps : List Lexer.Step) {cursor : Cursor}
    (stands : ((Lexer.ofText source).after steps).cursor = cursor) :
    (∀ mode inside, Cursor.SkipsBy .between cursor mode inside → ∀ count, ∃ before,
      cutBytes? (inside.drop count).location.offset source.toList =
        some (before, (inside.drop count).rest)) ∧
    ∃ mode reached, Cursor.SkipsBy .between cursor mode reached ∧
      skipGap .between cursor.location cursor.rest = gapEnd mode reached ∧
      ∀ found, scan reached.rest = .ok found →
        reached.drop found.spelling.length =
          ⟨reached.location.after found.spelling, found.rest⟩ := by
  have isIn : cursor.IsIn source.toList := stands ▸ ((isPlaced_ofText source).after steps).2
  obtain ⟨mode, reached, skips, same⟩ := Cursor.exists_skipsBy .between cursor
  exact ⟨fun mode inside skips count => ((isIn.skipsBy skips).drop count).cutBytes?,
    mode, reached, skips, same, fun found => Cursor.drop_of_scan⟩

end SableSyntax
