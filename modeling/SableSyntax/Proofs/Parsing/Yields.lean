/- SableSyntax/Proofs/Parsing/Yields
   digest: Readers that find what stands ahead of them, and how they are put together. -/

import SableSyntax.Proofs.Parsing.Reads

set_option autoImplicit false
set_option relaxedAutoImplicit false

namespace SableSyntax

namespace Parser

open Grammar (Many Mark NameRule Silent Then)

variable {α β : Type}

/-- From wherever some results are ahead, a reader gives a value and leaves the rest of them. -/
def Yields (parser : Parser α) (ahead : List LexResult) (value : α) (rest : List LexResult) :
    Prop :=
  ∀ state, state.ahead = ahead → ∃ reached, parser state = .ok value reached ∧ reached.ahead = rest

section Primitives

variable {ahead middle rest : List LexResult} {token : Token}

theorem Yields.pure (value : α) : Yields (pure value) ahead value ahead :=
  fun state same => ⟨state, rfl, same⟩

theorem Yields.bind {parser : Parser α} {go : α → Parser β} {part : α} {value : β}
    (before : parser.Yields ahead part middle) (behind : (go part).Yields middle value rest) :
    (parser >>= go).Yields ahead value rest := by
  intro state same
  obtain ⟨reached, hpart, same'⟩ := before state same
  obtain ⟨last, hvalue, same''⟩ := behind reached same'
  exact ⟨last, by simp only [Bind.bind, EStateM.bind, hpart, hvalue], same''⟩

theorem peek_yields : peek.Yields (.ok token :: rest) token (.ok token :: rest) := by
  intro state same
  obtain ⟨reached, hpeek, took, -⟩ := peek_of_token (by rw [same]; rfl)
  exact ⟨reached, hpeek, by rw [took.ahead_eq_of_nil, same]⟩

theorem peekSecond_yields {second : Token} (notEnd : token.kind ≠ .endOfInput) :
    peekSecond.Yields (.ok token :: .ok second :: rest) second
      (.ok token :: .ok second :: rest) := by
  intro state same
  obtain ⟨reached, hpeek, took⟩ := peekSecond_of_token same notEnd
  exact ⟨reached, hpeek, by rw [took.ahead_eq_of_nil, same]⟩

theorem advance_yields (notEnd : token.kind ≠ .endOfInput) :
    advance.Yields (.ok token :: rest) token rest := by
  intro state same
  obtain ⟨reached, hadvance, took⟩ := advance_of_token (by rw [same]; rfl)
  have := (took notEnd).ahead_eq
  exact ⟨reached, hadvance, by simpa [same] using this.symm⟩

theorem expect_yields {kind : TokenKind} {construct : Construct} (same : token.kind = kind)
    (notEnd : kind ≠ .endOfInput) :
    (expect kind construct).Yields (.ok token :: rest) token rest := by
  refine .bind peek_yields ?_
  simp only [same, ↓reduceIte]
  exact advance_yields (same ▸ notEnd)

theorem record_yields (event : TraceEvent) : (record event).Yields ahead () ahead :=
  fun _ same => ⟨_, rfl, same⟩

end Primitives

def Completes (parser : Parser α) (rule : List Token → α → Prop) (follow : Token → Prop) : Prop :=
  ∀ tokens value next more, rule tokens value → follow next →
    parser.Yields (tokens.map .ok ++ .ok next :: more) value (.ok next :: more)

namespace Completes

variable {parser : Parser α} {go : α → Parser β} {rule rule' : List Token → α → Prop}
  {first : List Token → α → Prop} {second : α → List Token → β → Prop}
  {follow follow' : Token → Prop}

theorem mono (h : parser.Completes rule follow)
    (le : ∀ tokens value, rule' tokens value → rule tokens value) :
    parser.Completes rule' follow :=
  fun tokens value next more derived => h tokens value next more (le _ _ derived)

theorem bind (h : parser.Completes first follow)
    (next : ∀ part, (go part).Completes (second part) follow')
    (fits : ∀ part tokens value token, second part tokens value → follow' token →
      follow (tokens.headD token)) :
    (parser >>= go).Completes (Then first second) follow' := by
  intro _ value token more derived follows
  rcases derived with ⟨front, part, behind, rfl, derived, derived'⟩
  have follows' := fits part behind value token derived' follows
  refine .bind ?_ (next part behind value token more derived' follows)
  rw [List.map_append, List.append_assoc]
  cases behind with
  | nil => exact h front part token more derived follows'
  | cons head tail => exact h front part head (tail.map .ok ++ .ok token :: more) derived follows'

theorem bind_of_true (h : parser.Completes first fun _ => True)
    (next : ∀ part, (go part).Completes (second part) follow) :
    (parser >>= go).Completes (Then first second) follow :=
  h.bind next fun _ _ _ _ _ _ => trivial

theorem pure (value : α) : Completes (pure value) (Silent value) follow := by
  intro _ _ token more h _
  rcases h with ⟨rfl, rfl⟩
  exact .pure _

theorem record {event : TraceEvent} {go : Unit → Parser α} (h : (go ()).Completes rule follow) :
    (record event >>= go).Completes rule follow :=
  fun tokens value next more derived follows =>
    .bind (record_yields event) (h tokens value next more derived follows)

theorem peek {go : Token → Parser α}
    (h : ∀ tokens value next more, rule tokens value → follow next →
      (go (tokens.headD next)).Yields (tokens.map .ok ++ .ok next :: more) value
        (.ok next :: more)) :
    (peek >>= go).Completes rule follow := by
  intro tokens value next more derived follows
  refine .bind ?_ (h tokens value next more derived follows)
  cases tokens <;> exact peek_yields

end Completes

theorem expect_completes {kind : TokenKind} (notEnd : kind ≠ .endOfInput) (construct : Construct) :
    (expect kind construct).Completes (Mark kind) fun _ => True := by
  intro _ token next more h _
  rcases h with ⟨rfl, same⟩
  exact expect_yields same notEnd

theorem advance_completes {kind : TokenKind} (notEnd : kind ≠ .endOfInput) :
    advance.Completes (Mark kind) fun _ => True := by
  intro _ token next more h _
  rcases h with ⟨rfl, same⟩
  exact advance_yields (same ▸ notEnd)

section Repetition

variable {test : Token → Bool} {item : Parser α} {rule : List Token → α → Prop}
  {follow : Token → Prop}
  (reads : ∀ state token, state.ahead.head? = some (.ok token) → test token →
    item.ReadsAt state rule)
  (starts : ∀ used value, rule used value → ∃ first rest, used = first :: rest ∧
    test first ∧ follow first)
  (items : item.Completes rule follow)

private theorem ne_nil_of_starts (starts : ∀ used value, rule used value →
    ∃ first rest, used = first :: rest ∧ test first ∧ follow first) :
    ∀ used value, rule used value → used ≠ [] := by
  intro used value derived
  obtain ⟨first, rest, rfl, -⟩ := starts used value derived
  exact List.cons_ne_nil first rest

include reads starts items

/-- Reading items passes over a list of items and goes on behind them, if every item starts with a
token that passes the test and may follow the item before it. -/
theorem repeatWhile_over {tokens : List Token} {values : List α} {next : Token}
    {more : List LexResult} (derived : Many rule tokens values) (follows : follow next)
    {state : ParserState} (ahead : state.ahead = tokens.map .ok ++ .ok next :: more) :
    ∃ reached, reached.ahead = .ok next :: more ∧ repeatWhile test item state =
      (do let rest ← repeatWhile test item; return values ++ rest) reached := by
  induction derived generalizing state with
  | nil => exact ⟨state, ahead, by simp⟩
  | @cons used rest value values head tail ih =>
    obtain ⟨first, others, rfl, passes, -⟩ := starts used value head
    have found : item.Yields ((first :: others ++ rest).map .ok ++ .ok next :: more) value
        (rest.map .ok ++ .ok next :: more) := by
      rw [List.map_append, List.append_assoc]
      -- Behind an item stands the next one or what follows them all.
      cases tail with
      | nil => exact items _ value next more head follows
      | @cons used' rest' _ _ head' tail' =>
        obtain ⟨first', others', rfl, -, follows'⟩ := starts _ _ head'
        simpa using items _ value first' (others'.map .ok ++ (rest'.map .ok ++ .ok next :: more))
          head follows'
    obtain ⟨looked, looks, same⟩ := peek_yields state ahead
    obtain ⟨behind, read, ahead'⟩ := found looked same
    obtain ⟨reached, ahead'', goesOn⟩ := ih ahead'
    refine ⟨reached, ahead'', ?_⟩
    rw [congrFun (repeatWhile_eq_of_runs reads (ne_nil_of_starts starts)) state]
    simp only [Bind.bind, EStateM.bind, looks, passes, ↓reduceIte, read] at goesOn ⊢
    rw [goesOn]
    cases repeatWhile test item reached <;> rfl

theorem repeatWhile_completes :
    (repeatWhile test item).Completes (Many rule) fun next => follow next ∧ test next = false := by
  intro tokens values next more derived h state ahead
  rcases h with ⟨follows, fails⟩
  have stops : (repeatWhile test item).Yields (.ok next :: more) [] (.ok next :: more) := by
    rw [repeatWhile_eq_of_runs reads (ne_nil_of_starts starts)]
    refine .bind peek_yields ?_
    simp only [fails, Bool.false_eq_true, ↓reduceIte]
    exact .pure []
  obtain ⟨reached, ahead', same⟩ := repeatWhile_over reads starts items derived follows ahead
  have whole : Yields (do let rest ← repeatWhile test item; return values ++ rest)
      (.ok next :: more) (values ++ []) (.ok next :: more) := stops.bind (.pure _)
  rw [List.append_nil] at whole
  rw [same]
  exact whole reached ahead'

end Repetition

end Parser

end SableSyntax
