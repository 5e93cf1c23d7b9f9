/- SableSyntax/Proofs/Parsing/Reads
   digest: Readers that read by a rule from wherever they start, and how they are put together. -/

import SableSyntax.Proofs.Grammar.Sequences
import SableSyntax.Proofs.Grammar.Viable
import SableSyntax.Proofs.Parsing.Runs

set_option autoImplicit false
set_option relaxedAutoImplicit false

namespace SableSyntax

namespace Grammar

variable {α β : Type}

theorem Many.append {item : List Token → α → Prop} {first second : List Token}
    {values values' : List α} (before : Many item first values)
    (behind : Many item second values') : Many item (first ++ second) (values ++ values') := by
  induction before with
  | nil => exact behind
  | cons head _ ih => simpa using Many.cons head ih

namespace Viable

theorem mono {rule rule' : List Token → α → Prop} {tokens : List Token} (h : Viable rule tokens)
    (le : ∀ tokens value, rule tokens value → rule' tokens value) : Viable rule' tokens := by
  obtain ⟨more, value, spelled, derived⟩ := h
  exact ⟨more, value, spelled, le _ value derived⟩

theorem mark {kind : TokenKind} (notEnd : kind ≠ .endOfInput) : Viable (Mark kind) [] :=
  .sample kind notEnd (.of_rule ⟨rfl, rfl⟩)

variable {first : List Token → α → Prop} {second : α → List Token → β → Prop}
  {tokens more : List Token}

theorem front (h : Viable first tokens) (starts : ∀ part, Viable (second part) []) :
    Viable (Then first second) tokens := by
  obtain ⟨rest, part, spelled, derived⟩ := h
  obtain ⟨others, value, spelled', derived'⟩ := starts part
  refine ⟨rest ++ others, value, ?_, tokens ++ rest, part, others, by simp, derived, derived'⟩
  simpa [or_imp, forall_and] using ⟨spelled, spelled'⟩

theorem behind {part : α} (derived : first tokens part) (h : Viable (second part) more) :
    Viable (Then first second) (tokens ++ more) := by
  obtain ⟨others, value, spelled, derived'⟩ := h
  exact ⟨others, value, spelled, tokens, part, more ++ others, by simp, derived, derived'⟩

theorem many {item : List Token → α → Prop} {before : List Token} {values : List α}
    (derived : Many item before values) (h : more = [] ∨ Viable item more) :
    Viable (Many item) (before ++ more) := by
  rcases h with rfl | ⟨others, value, spelled, derived'⟩
  · exact .of_rule (by simpa using derived)
  · refine ⟨others, values ++ [value], spelled, ?_⟩
    simpa using derived.append (.cons derived' .nil)

end Viable

end Grammar

namespace Parser

open Grammar (Many Mark NameRule Silent Then Viable)

variable {α β : Type}

/-- A reader that gives what a rule derives or fails behind the beginning of something the rule
derives. -/
def ReadsAt (parser : Parser α) (state : ParserState) (rule : List Token → α → Prop) : Prop :=
  parser.Runs state (fun used value _ => rule used value) (Viable rule)

structure Reads (parser : Parser α) (rule : List Token → α → Prop) : Prop where
  readsAt : ∀ state, parser.ReadsAt state rule
  starts : Viable rule []

section Rules

variable {parser : Parser α} {go : α → Parser β} {rule rule' : List Token → α → Prop}
  {first : List Token → α → Prop} {second : α → List Token → β → Prop} {state : ParserState}

theorem ReadsAt.mono (h : parser.ReadsAt state rule)
    (le : ∀ tokens value, rule tokens value → rule' tokens value) :
    parser.ReadsAt state rule' :=
  Runs.mono h (fun used value _ _ => le used value) fun _ stopped => stopped.mono le

theorem ReadsAt.bind (h : parser.ReadsAt state first)
    (next : ∀ part, (go part).Reads (second part)) :
    (parser >>= go).ReadsAt state (Then first second) := by
  apply Runs.bind h (fun _ stopped => stopped.front fun part => (next part).starts)
  intro used part reached _ derived
  refine Runs.mono ((next part).readsAt reached) ?_ fun _ stopped => stopped.behind derived
  exact fun more value _ _ derived' => ⟨used, part, more, rfl, derived, derived'⟩

theorem Reads.mono (h : parser.Reads rule)
    (le : ∀ tokens value, rule tokens value → rule' tokens value) : parser.Reads rule' :=
  ⟨fun state => (h.readsAt state).mono le, h.starts.mono le⟩

theorem Reads.bind (h : parser.Reads first) (next : ∀ part, (go part).Reads (second part)) :
    (parser >>= go).Reads (Then first second) :=
  ⟨fun state => (h.readsAt state).bind next, h.starts.front fun part => (next part).starts⟩

theorem Reads.pure (value : α) : Reads (pure value) (Silent value) :=
  ⟨fun _ => Runs.pure ⟨rfl, rfl⟩, .of_rule ⟨rfl, rfl⟩⟩

theorem Reads.record {event : TraceEvent} {go : Unit → Parser α} (h : (go ()).Reads rule) :
    (record event >>= go).Reads rule := by
  refine ⟨fun state => ?_, h.starts⟩
  apply (record_runs event state).bind (fun _ => False.elim)
  intro _ done reached _ same
  cases done
  subst same
  exact h.readsAt reached

theorem Reads.peek {go : Token → Parser α} (starts : Viable rule [])
    (next : ∀ token state, state.ahead.head? = some (.ok token) → (go token).ReadsAt state rule) :
    (peek >>= go).Reads rule := by
  refine ⟨fun state => ?_, starts⟩
  apply (peek_runs state).bind
  · intro _ h
    subst h
    exact starts
  · intro _ token reached _ h
    rcases h with ⟨rfl, -, ahead⟩
    exact next token reached ahead

end Rules

variable {rule : List Token → α → Prop} {state : ParserState} {token : Token}

theorem ReadsAt.throw {error : SyntaxError} (next : state.ahead.head? = some (.ok token))
    (blames : Blames (.ok token) error) (starts : Viable rule []) :
    ReadsAt (throw error) state rule :=
  Runs.throw next blames starts

theorem advance_readsAt {kind : TokenKind} (next : state.ahead.head? = some (.ok token))
    (same : token.kind = kind) (notEnd : kind ≠ .endOfInput) :
    advance.ReadsAt state (Mark kind) := by
  refine (advance_runs next (same ▸ notEnd)).mono ?_ (fun _ => False.elim)
  intro _ _ _ _ h
  rcases h with ⟨rfl, rfl⟩
  exact ⟨rfl, same⟩

theorem expect_reads {kind : TokenKind} (notEnd : kind ≠ .endOfInput) (construct : Construct) :
    (expect kind construct).Reads (Mark kind) := by
  refine ⟨fun state => (expect_runs notEnd construct state).mono ?_ ?_, .mark notEnd⟩
  · intro _ token _ _ h
    rcases h with ⟨rfl, same⟩
    exact ⟨rfl, same⟩
  · intro _ h
    subst h
    exact .mark notEnd

theorem repeatWhile_reads {test : Token → Bool} {item : Parser α}
    (reads : ∀ state token, state.ahead.head? = some (.ok token) → test token →
      item.ReadsAt state rule)
    (nonempty : ∀ used value, rule used value → used ≠ []) :
    (repeatWhile test item).Reads (Many rule) := by
  refine ⟨fun state => (repeatWhile_runs reads nonempty state).mono ?_ ?_, .of_rule .nil⟩
  · exact fun _ _ _ _ holds => holds.1
  · intro _ h
    rcases h with ⟨before, values, more, rfl, derived, stopped⟩
    exact .many derived stopped

end Parser

end SableSyntax
