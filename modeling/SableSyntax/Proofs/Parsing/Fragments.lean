/- SableSyntax/Proofs/Parsing/Fragments
   digest: The stretch of every node of a program is a text of its own that reads as the node. -/

import SableSyntax.Proofs.Grammar.Parts
import SableSyntax.Proofs.Lexing.Fragments
import SableSyntax.Proofs.Printing.RoundTrip

set_option autoImplicit false
set_option relaxedAutoImplicit false

namespace SableSyntax

open Grammar

namespace Entry

variable {α : Type}

def node : Entry α → α → Node
  | .program => .program
  | .function => .function
  | .parameter => .parameter
  | .block => .block
  | .statement => .statement
  | .expression => .expression
  | .type => .typeExpr

theorem rule_of_derivedFrom (entry : Entry α) {stop : Token} {tokens : List Token} {value : α}
    (derived : (entry.node value).DerivedFrom stop tokens) : entry.rule stop tokens value := by
  cases entry <;> exact derived

theorem reads_lexemes (entry : Entry α) {stop stop' : Token} {tokens tokens' : List Token}
    {value : α} {source : String} (derived : entry.rule stop tokens value)
    (lexed : tokenize source = .ok (tokens' ++ [stop']))
    (same : tokens'.map Token.toLexeme = tokens.map Token.toLexeme) :
    ∃ again reached, entry.reader (.ofText source) = .ok again reached ∧
      reached.ahead = [.ok stop'] ∧ entry.agrees again value := by
  obtain ⟨again, derived', same'⟩ :=
    entry.rule_transports derived (.of_toLexeme_eq same.symm) stop'
  have results := tokenize_eq_ok_iff.1 lexed
  rw [List.map_append] at results
  obtain ⟨reached, read, left⟩ :=
    entry.reader_yields derived' (kind_of_tokenize lexed) (.ofText source) results
  exact ⟨again, reached, read, left, entry.agrees_of_unplaced_eq derived' same'⟩

end Entry

theorem slice?_point_of_tokenize {source : String} {tokens : List Token} {stop : Token}
    (lexed : tokenize source = .ok (tokens ++ [stop])) :
    (Span.point stop.span.start).slice? source.toList = some [] := by
  rcases splits_cases source.toList with
    ⟨pieces, last, splits⟩ | ⟨front, rest, pieces, last, error, whole, splits, faulty⟩
  · have same := Except.ok.inj ((tokenize_of_splits splits).symm.trans lexed)
    obtain rfl : Token.endAt _ = stop := by simpa using (List.append_inj' same rfl).2
    refine Span.slice?_eq_some_iff.2 ⟨source.toList, [], by simp, ?_, ?_⟩
    all_goals simp [Token.endAt, Span.point, Location.start]
  · cases lexed.symm.trans (tokenize_of_splits_fault whole splits faulty)

/-- The stretch of a node is a text of its own: for every node of a program that was read, at any
depth, the text that the node covers is read from its start as an equal node, and nothing but the
end of that text is left. -/
theorem node_reads_back {source : String} {program : Program}
    (accepted : parse source = .ok program) {α : Type} (entry : Entry α) (value : α)
    (inside : (Node.program program).StandsIn (entry.node value)) :
    ∃ text again reached stop, (entry.node value).span.slice? source.toList = some text ∧
      entry.reader (.ofText (.ofList text)) = .ok again reached ∧
      reached.ahead = [.ok stop] ∧ stop.kind = .endOfInput ∧ entry.agrees again value := by
  obtain ⟨tokens, stop, lexed, derived⟩ := parse_eq_ok_iff.1 accepted
  obtain ⟨before, used, behind, rfl, derived'⟩ :=
    exists_part_of_standsIn stop (show Node.DerivedFrom stop tokens (.program program) from derived)
      inside
  have rule := entry.rule_of_derivedFrom derived'
  rcases extends_of_derivedFrom stop derived' with extent | ⟨rfl, empty⟩
  · obtain ⟨text, tokens', stop', covers, lexed', same⟩ := exists_fragment lexed extent
    obtain ⟨again, reached, read, left, equal⟩ := entry.reads_lexemes rule lexed' same
    exact ⟨text, again, reached, stop', covers, read, left, kind_of_tokenize lexed', equal⟩
  · have covers := slice?_point_of_tokenize lexed
    have lexed' := @tokenize_of_splits (.ofList []) [] [] (by simpa using .last .empty)
    obtain ⟨again, reached, read, left, equal⟩ := entry.reads_lexemes rule lexed' rfl
    rw [empty]
    exact ⟨[], again, reached, _, covers, read, left, rfl, equal⟩

/-- The right operand of a difference, with a comment in front of it. -/
theorem node_reads_back_operand : ∃ text again reached stop,
    Span.slice? ⟨⟨21, 1, 22⟩, ⟨24, 1, 25⟩⟩ "func f(): T { a-/*-*/b*c; }".toList = some text ∧
      Parser.expression (.ofText (.ofList text)) = .ok again reached ∧
      reached.ahead = [.ok stop] ∧ stop.kind = .endOfInput ∧
      again.agrees (.binary .mul (.identifier "b" ⟨⟨21, 1, 22⟩, ⟨22, 1, 23⟩⟩)
        (.identifier "c" ⟨⟨23, 1, 24⟩, ⟨24, 1, 25⟩⟩) ⟨⟨21, 1, 22⟩, ⟨24, 1, 25⟩⟩) := by
  have accepted : parse "func f(): T { a-/*-*/b*c; }" = .ok ⟨[⟨⟨"f", ⟨⟨5, 1, 6⟩, ⟨6, 1, 7⟩⟩⟩, [],
      ⟨.named "T", 0, ⟨⟨10, 1, 11⟩, ⟨11, 1, 12⟩⟩⟩,
      some ⟨[.expression (.binary .sub (.identifier "a" ⟨⟨14, 1, 15⟩, ⟨15, 1, 16⟩⟩)
        (.binary .mul (.identifier "b" ⟨⟨21, 1, 22⟩, ⟨22, 1, 23⟩⟩)
          (.identifier "c" ⟨⟨23, 1, 24⟩, ⟨24, 1, 25⟩⟩) ⟨⟨21, 1, 22⟩, ⟨24, 1, 25⟩⟩)
        ⟨⟨14, 1, 15⟩, ⟨24, 1, 25⟩⟩) ⟨⟨14, 1, 15⟩, ⟨25, 1, 26⟩⟩], ⟨⟨12, 1, 13⟩, ⟨27, 1, 28⟩⟩⟩,
      ⟨⟨0, 1, 1⟩, ⟨27, 1, 28⟩⟩⟩], ⟨⟨0, 1, 1⟩, ⟨27, 1, 28⟩⟩⟩ := by
    decide +kernel
  -- From the program through its function, the block, the statement and the difference.
  exact node_reads_back accepted .expression _ (.child (.child (.child (.child (.child .self
    List.mem_cons_self) (.tail _ (.tail _ List.mem_cons_self))) List.mem_cons_self)
    List.mem_cons_self) (.tail _ List.mem_cons_self))

end SableSyntax
