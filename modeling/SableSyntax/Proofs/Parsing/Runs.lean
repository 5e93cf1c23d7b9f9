/- SableSyntax/Proofs/Parsing/Runs
   digest: What a reader takes before it gives a value or fails, step by step through its body. -/

import SableSyntax.Proofs.Grammar.Rules
import SableSyntax.Proofs.Parsing.Ahead

set_option autoImplicit false
set_option relaxedAutoImplicit false

namespace SableSyntax

def Fault.IsUnexpectedEnd (fault : Fault) : Prop := ∃ construct, fault = .unexpectedEnd construct

/-- An error lies with a result: it is the fault itself, or it covers the token and speaks of an
unexpected end if and only if the token is the end of the text. -/
inductive Blames : LexResult → SyntaxError → Prop
  | fault (error : SyntaxError) : Blames (.error error) error
  | token {token : Token} {error : SyntaxError} (covers : error.span = token.span)
    (ends : error.fault.IsUnexpectedEnd ↔ token.kind = .endOfInput) : Blames (.ok token) error

theorem Blames.unexpected (found : Token) (expected : Expected) (construct : Construct) :
    Blames (.ok found) (.unexpected found expected construct) := by
  refine .token (SyntaxError.span_unexpected _ _ _) ?_
  unfold SyntaxError.unexpected Fault.IsUnexpectedEnd
  split <;> simp_all

namespace Parser

open ParserState (SameAhead Took)
open Grammar (Many)

variable {α β : Type}

/-- How a reader runs from a state. Either it gives a value, and `done` holds of the tokens it
took, the value and the state it leaves; or it fails with an error that lies with the first result
behind the tokens it took, and `cut` holds of those. It looks at no result behind that one: where
the same results are ahead so far, it comes to the same. -/
def Runs (parser : Parser α) (state : ParserState)
    (done : List Token → α → ParserState → Prop) (cut : List Token → Prop) : Prop :=
  match parser state with
  | .ok value reached => ∃ used, Took state used reached ∧ done used value reached ∧
      ∀ other, SameAhead (used.length + 1) state other →
        ∃ last, parser other = .ok value last ∧ Took other used last
  | .error error _ => ∃ used result rest, state.ahead = used.map .ok ++ result :: rest ∧
      Blames result error ∧ cut used ∧
      ∀ other, SameAhead (used.length + 1) state other →
        ∃ last, parser other = .error error last

section Rules

variable {state : ParserState} {done : List Token → α → ParserState → Prop}
  {cut : List Token → Prop}

theorem Runs.pure {value : α} (finished : done [] value state) :
    Runs (pure value) state done cut :=
  ⟨[], .refl state, finished, fun other _ => ⟨other, rfl, .refl other⟩⟩

theorem Runs.throw {error : SyntaxError} {result : LexResult}
    (next : state.ahead.head? = some result) (blames : Blames result error) (stopped : cut []) :
    Runs (throw error : Parser α) state done cut := by
  obtain ⟨rest, same⟩ := List.head?_eq_some_iff.1 next
  exact ⟨[], result, rest, same, blames, stopped, fun other _ => ⟨other, rfl⟩⟩

theorem Runs.mono {done' : List Token → α → ParserState → Prop} {cut' : List Token → Prop}
    {parser : Parser α} (runs : parser.Runs state done cut)
    (finished : ∀ used value reached, Took state used reached → done used value reached →
      done' used value reached) (stopped : ∀ used, cut used → cut' used) :
    parser.Runs state done' cut' := by
  unfold Runs at runs ⊢
  split at runs
  · next value reached _ =>
    obtain ⟨used, took, holds, steady⟩ := runs
    exact ⟨used, took, finished used value reached took holds, steady⟩
  · obtain ⟨used, result, rest, same, blames, holds, steady⟩ := runs
    exact ⟨used, result, rest, same, blames, stopped used holds, steady⟩

theorem Runs.bind {done' : List Token → β → ParserState → Prop} {cut' : List Token → Prop}
    {first : Parser α} {second : α → Parser β} (runs : first.Runs state done cut)
    (stopped : ∀ used, cut used → cut' used)
    (next : ∀ used value reached, Took state used reached → done used value reached →
      (second value).Runs reached (fun more => done' (used ++ more))
        fun more => cut' (used ++ more)) :
    (first >>= second).Runs state done' cut' := by
  unfold Runs at runs ⊢
  simp only [Bind.bind, EStateM.bind]
  cases hfirst : first state with
  | error error middle =>
    simp only [hfirst] at runs ⊢
    obtain ⟨used, result, rest, same, blames, holds, steady⟩ := runs
    refine ⟨used, result, rest, same, blames, stopped used holds, fun other agree => ?_⟩
    obtain ⟨last, hother⟩ := steady other agree
    exact ⟨last, by simp only [hother]⟩
  | ok value middle =>
    simp only [hfirst] at runs ⊢
    obtain ⟨used, took, holds, steady⟩ := runs
    have after := next used value middle took holds
    unfold Runs at after
    cases hsecond : second value middle with
    | error error last =>
      simp only [hsecond] at after ⊢
      obtain ⟨more, result, rest, same, blames, holds', steady'⟩ := after
      refine ⟨used ++ more, result, rest, by simp [took.ahead_eq, same], blames, holds', ?_⟩
      -- What agrees one result past both parts agrees one result past the first part.
      intro other agree
      rw [List.length_append, Nat.add_assoc] at agree
      obtain ⟨middle', hother, took'⟩ := steady other (agree.of_le (by omega))
      obtain ⟨last', hlast⟩ := steady' middle' (agree.behind took took')
      exact ⟨last', by simp only [hother, hlast]⟩
    | ok final last =>
      simp only [hsecond] at after ⊢
      obtain ⟨more, tookMore, holds', steady'⟩ := after
      refine ⟨used ++ more, took.trans tookMore, holds', ?_⟩
      intro other agree
      rw [List.length_append, Nat.add_assoc] at agree
      obtain ⟨middle', hother, took'⟩ := steady other (agree.of_le (by omega))
      obtain ⟨last', hlast, tookMore'⟩ := steady' middle' (agree.behind took took')
      exact ⟨last', by simp only [hother, hlast], took'.trans tookMore'⟩

theorem Runs.size_le {parser : Parser α} {value : α} {reached : ParserState}
    (runs : parser.Runs state done cut) (h : parser state = .ok value reached) :
    reached.size ≤ state.size := by
  simp only [Runs, h] at runs
  obtain ⟨used, took, -, -⟩ := runs
  have := took.size_le
  omega

theorem Runs.size_lt {parser : Parser α} {value : α} {reached : ParserState}
    (runs : parser.Runs state done cut)
    (nonempty : ∀ used value reached, done used value reached → used ≠ [])
    (h : parser state = .ok value reached) : reached.size < state.size := by
  simp only [Runs, h] at runs
  obtain ⟨used, took, holds, -⟩ := runs
  have := List.length_pos_iff.2 (nonempty used value reached holds)
  have := took.size_le
  omega

end Rules

section Primitives

variable {state : ParserState}

theorem peek_runs (state : ParserState) :
    peek.Runs state (fun used token reached => used = [] ∧
      reached.lookahead.head? = some token ∧ reached.ahead.head? = some (.ok token))
      (fun used => used = []) := by
  unfold Runs
  rcases peek_cases state with
    ⟨token, reached, hpeek, took, buffered, next⟩ | ⟨error, reached, hpeek, next⟩
  · simp only [hpeek]
    refine ⟨[], took, ⟨rfl, buffered, by rw [took.ahead_eq_of_nil, next]⟩, fun other agree => ?_⟩
    obtain ⟨last, hother, took', -⟩ := peek_of_token (agree.head? ▸ next)
    exact ⟨last, hother, took'⟩
  · simp only [hpeek]
    obtain ⟨rest, same⟩ := List.head?_eq_some_iff.1 next
    refine ⟨[], _, rest, same, .fault error, rfl, fun other agree => ?_⟩
    exact peek_of_fault (agree.head? ▸ next)

theorem peek_token_runs {token : Token} (next : state.ahead.head? = some (.ok token)) :
    peek.Runs state (fun used found reached => used = [] ∧ found = token ∧
      reached.ahead.head? = some (.ok token)) (fun _ => False) := by
  obtain ⟨reached, hpeek, took, -⟩ := peek_of_token next
  simp only [Runs, hpeek]
  refine ⟨[], took, ⟨rfl, trivial, by rw [took.ahead_eq_of_nil, next]⟩, fun other agree => ?_⟩
  obtain ⟨last, hother, took', -⟩ := peek_of_token (agree.head? ▸ next)
  exact ⟨last, hother, took'⟩

theorem advance_runs {token : Token} (next : state.ahead.head? = some (.ok token))
    (notEnd : token.kind ≠ .endOfInput) :
    advance.Runs state (fun used found _ => used = [token] ∧ found = token) (fun _ => False) := by
  obtain ⟨reached, hadvance, took⟩ := advance_of_token next
  simp only [Runs, hadvance]
  refine ⟨[token], took notEnd, ⟨rfl, trivial⟩, fun other agree => ?_⟩
  obtain ⟨last, hother, took'⟩ := advance_of_token (agree.head? ▸ next)
  exact ⟨last, hother, took' notEnd⟩

theorem advance_throw_runs {token : Token} {error : Token → SyntaxError}
    {done : List Token → α → ParserState → Prop} {cut : List Token → Prop}
    (next : state.ahead.head? = some (.ok token)) (blames : Blames (.ok token) (error token))
    (stopped : cut []) :
    Runs (do let found ← advance; throw (error found) : Parser α) state done cut := by
  obtain ⟨reached, hadvance, -⟩ := advance_of_token next
  obtain ⟨rest, same⟩ := List.head?_eq_some_iff.1 next
  simp only [Runs, Bind.bind, EStateM.bind, hadvance]
  refine ⟨[], _, rest, same, blames, stopped, fun other agree => ?_⟩
  obtain ⟨last, hother, -⟩ := advance_of_token (agree.head? ▸ next)
  exact ⟨last, by simp only [hother]; rfl⟩

/-- Looking at the second token is looking at the first one further on, so that what goes on from
there may depend on it as soon as it takes a token. -/
theorem peekSecond_bind_runs {first : Token} {go : Token → Parser α}
    {done : List Token → α → ParserState → Prop} {cut : List Token → Prop}
    (next : state.ahead.head? = some (.ok first)) (notEnd : first.kind ≠ .endOfInput)
    (stopped : cut [first])
    (goes : ∀ second reached more, reached.ahead = .ok first :: .ok second :: more →
      (go second).Runs reached (fun used value last => used ≠ [] ∧ done used value last)
        fun used => used ≠ [] ∧ cut used) :
    (peekSecond >>= go).Runs state done cut := by
  obtain ⟨rest, same⟩ := List.head?_eq_some_iff.1 next
  rcases peekSecond_cases same notEnd with
    ⟨second, reached, hpeek, took, behind⟩ | ⟨error, reached, hpeek, behind⟩
  · obtain ⟨more, rfl⟩ := List.head?_eq_some_iff.1 behind
    -- Who takes a token and agrees one result further agrees on the second one too.
    have looked : ∀ {used : List Token} {other : ParserState}, used ≠ [] →
        SameAhead (used.length + 1) state other →
        ∃ last, peekSecond other = .ok second last ∧ Took other [] last := by
      intro used other nonempty agree
      have := List.length_pos_iff.2 nonempty
      obtain ⟨more', same'⟩ := agree.exists_append
        (show state.ahead = [.ok first, .ok second] ++ more from same)
        (by simp only [List.length_cons, List.length_nil]; omega)
      exact peekSecond_of_token same' notEnd
    have runs := goes second reached more (by rw [took.ahead_eq_of_nil, same])
    unfold Runs at runs ⊢
    simp only [Bind.bind, EStateM.bind, hpeek]
    cases hgo : go second reached with
    | ok value last =>
      simp only [hgo] at runs ⊢
      obtain ⟨used, tookUsed, ⟨nonempty, holds⟩, steady⟩ := runs
      refine ⟨used, took.trans tookUsed, holds, fun other agree => ?_⟩
      obtain ⟨middle, hother, took'⟩ := looked nonempty agree
      obtain ⟨last', hlast, tookUsed'⟩ := steady middle (agree.behind_nil took took')
      exact ⟨last', by simp only [hother, hlast], took'.trans tookUsed'⟩
    | error error last =>
      simp only [hgo] at runs ⊢
      obtain ⟨used, result, rest', same', blames, ⟨nonempty, holds⟩, steady⟩ := runs
      refine ⟨used, result, rest', by rw [← same', took.ahead_eq_of_nil], blames, holds,
        fun other agree => ?_⟩
      obtain ⟨middle, hother, took'⟩ := looked nonempty agree
      obtain ⟨last', hlast⟩ := steady middle (agree.behind_nil took took')
      exact ⟨last', by simp only [hother, hlast]⟩
  · obtain ⟨more, rfl⟩ := List.head?_eq_some_iff.1 behind
    simp only [Runs, Bind.bind, EStateM.bind, hpeek]
    refine ⟨[first], _, more, same, .fault error, stopped, fun other agree => ?_⟩
    obtain ⟨more', same'⟩ := agree.exists_append
      (show state.ahead = [.ok first, .error error] ++ more from same) (Nat.le_refl 2)
    obtain ⟨last, hother⟩ := peekSecond_of_fault same' notEnd
    exact ⟨last, by simp only [hother]⟩

theorem expect_runs {kind : TokenKind} (notEnd : kind ≠ .endOfInput) (construct : Construct)
    (state : ParserState) :
    (expect kind construct).Runs state (fun used token _ => used = [token] ∧ token.kind = kind)
      (fun used => used = []) := by
  apply (peek_runs state).bind (fun _ => id)
  intro _ token reached _ h
  rcases h with ⟨rfl, -, next⟩
  by_cases same : token.kind = kind
  · simp only [same, ↓reduceIte]
    refine (advance_runs next (same ▸ notEnd)).mono ?_ (fun _ => False.elim)
    intro _ _ _ _ h
    rcases h with ⟨rfl, rfl⟩
    exact ⟨rfl, same⟩
  · simp only [same, ↓reduceIte]
    exact .throw next (.unexpected token _ construct) rfl

theorem record_runs (event : TraceEvent) (state : ParserState) :
    (record event).Runs state (fun used _ _ => used = []) (fun _ => False) :=
  ⟨[], ⟨rfl, Nat.le_refl _⟩, rfl, fun _ _ => ⟨_, rfl, rfl, Nat.le_refl _⟩⟩

end Primitives

section Repetition

variable {test : Token → Bool} {item : Parser α} {rule : List Token → α → Prop}
  {cut : List Token → Prop}

theorem head?_ahead_of_lookahead {state : ParserState} {token : Token}
    (buffered : state.lookahead.head? = some token) :
    state.ahead.head? = some (.ok token) := by
  obtain ⟨more, same⟩ := List.head?_eq_some_iff.1 buffered
  simp only [ParserState.ahead, same, ParserState.aheadOf]
  split <;> rfl

theorem repeatWhile_eq_of_runs
    (runs : ∀ state token, state.ahead.head? = some (.ok token) → test token →
      item.Runs state (fun used value _ => rule used value) cut)
    (nonempty : ∀ used value, rule used value → used ≠ []) :
    repeatWhile test item = (do
      let token ← peek
      if test token then
        let first ← item
        let rest ← repeatWhile test item
        return first :: rest
      else return []) := by
  refine repeatWhile_eq fun buffered passes h => ?_
  exact (runs _ _ (head?_ahead_of_lookahead buffered) passes).size_lt
    (fun used value _ => nonempty used value) h

theorem repeatWhile_runs
    (runs : ∀ state token, state.ahead.head? = some (.ok token) → test token →
      item.Runs state (fun used value _ => rule used value) cut)
    (nonempty : ∀ used value, rule used value → used ≠ []) (state : ParserState) :
    (repeatWhile test item).Runs state
      (fun used values reached => Many rule used values ∧
        ∃ token, reached.ahead.head? = some (.ok token) ∧ test token = false)
      (fun used => ∃ before values more, used = before ++ more ∧ Many rule before values ∧
        (more = [] ∨ cut more)) := by
  -- An item takes a token at least, so less is left to read behind it.
  induction hsize : state.size using Nat.strongRecOn generalizing state with
  | ind size ih =>
    rw [repeatWhile_eq_of_runs runs nonempty]
    apply (peek_runs state).bind
    · intro _ h
      subst h
      exact ⟨[], [], [], rfl, .nil, .inl rfl⟩
    · intro _ token ahead tookNone h
      rcases h with ⟨rfl, -, next⟩
      by_cases passes : test token
      · simp only [passes, ↓reduceIte, List.nil_append]
        apply (runs ahead token next passes).bind
        · exact fun used stopped => ⟨[], [], used, rfl, .nil, .inr stopped⟩
        · intro used value middle took holds
          have shorter : middle.size < size := by
            have := List.length_pos_iff.2 (nonempty used value holds)
            have := took.size_le
            have := tookNone.size_le
            omega
          apply (ih middle.size shorter middle rfl).bind
          · intro _ h
            rcases h with ⟨before, values, more, rfl, derived, stopped⟩
            exact ⟨used ++ before, value :: values, more, by simp, .cons holds derived, stopped⟩
          · intro rest values reached _ h
            rcases h with ⟨derived, stops⟩
            refine .pure ⟨?_, stops⟩
            simpa using Many.cons holds derived
      · have fails : test token = false := by simpa using passes
        simp only [fails, Bool.false_eq_true, ↓reduceIte]
        exact .pure ⟨.nil, token, next, fails⟩

end Repetition

end Parser

end SableSyntax
