/- SableSyntax/Proofs/Nesting/Openings
   digest: Tokens that open levels, and readers held to a limit at the first that goes beyond. -/

import SableSyntax.Proofs.Nesting.Unbounded

set_option autoImplicit false
set_option relaxedAutoImplicit false

namespace SableSyntax

/-- Whether a token of a kind opens a level of an expression: a parenthesis, the mark of an
assignment or an operator. -/
def TokenKind.opensLevel (kind : TokenKind) : Bool :=
  kind == .leftParen || kind == .equal || kind.operatorRule?.isSome

theorem TokenKind.ne_endOfInput_of_opensLevel {kind : TokenKind} (opens : kind.opensLevel) :
    kind ≠ .endOfInput := by
  rintro rfl
  cases opens

/-- A token that opens a level, and how many levels are open behind it. -/
structure Opening where
  mark : Token
  level : Nat
  deriving DecidableEq, Repr

namespace Expression

/-- How many levels are open behind each of the tokens that open one, in the order in which these
stand, where a number of levels is open around the expression. The links before an operator in its
chain are open by then, and all that its left operand held open besides is closed again. -/
def openings (around : Nat) : Expression → List Nat
  | .assignment _ value _ => (around + 1) :: value.openings (around + 1)
  | .parenthesized inner _ => (around + 1) :: inner.openings (around + 1)
  | .binary _ left right _ =>
    left.openings around ++
      (around + left.leftSpine + 1) :: right.openings (around + left.leftSpine + 1)
  | _ => []

theorem openings_le_iff {e : Expression} {around limit : Nat} (room : around ≤ limit) :
    (∀ level ∈ e.openings around, level ≤ limit) ↔ around + e.need ≤ limit := by
  induction e generalizing around with
  | assignment _ value _ ih | parenthesized value _ ih =>
    simp only [openings, List.forall_mem_cons, need]
    by_cases deeper : around + 1 ≤ limit
    · rw [ih deeper]
      omega
    · omega
  | binary operator left right span ihLeft ihRight =>
    simp only [openings, List.forall_mem_append, List.forall_mem_cons, need, ihLeft room]
    by_cases deeper : around + left.leftSpine + 1 ≤ limit
    · rw [ihRight deeper]
      omega
    · omega
  | identifier | integer | float => simpa [openings, need] using room

end Expression

section Held

variable {α β : Type} {limit : Nat} {openings more : List Opening}

/-- How a reader held to a limit ends where one that goes further comes to an outcome behind some
openings: with the same outcome if none of them goes beyond the limit, and with an error at the
first one that does if there is any. -/
inductive Held (limit : Nat) (openings : List Opening)
    (strict free : EStateM.Result SyntaxError ParserState α) : Prop
  | within (all : ∀ opening ∈ openings, opening.level ≤ limit) (same : strict = free)
  | beyond (before : List Opening) (opening : Opening) (after : List Opening)
    (split : openings = before ++ opening :: after)
    (earlier : ∀ opening ∈ before, opening.level ≤ limit) (first : opening.level = limit + 1)
    (stopped : ∃ reached, strict = .error ⟨.nestingTooDeep maxNesting, opening.mark.span⟩ reached)

theorem Held.refl (outcome : EStateM.Result SyntaxError ParserState α) :
    Held limit [] outcome outcome :=
  .within (List.forall_mem_nil _) rfl

theorem Held.cons {opening : Opening} {strict free : EStateM.Result SyntaxError ParserState α}
    (allowed : opening.level ≤ limit) (held : Held limit openings strict free) :
    Held limit (opening :: openings) strict free := by
  cases held with
  | within all same => exact .within (List.forall_mem_cons.2 ⟨allowed, all⟩) same
  | beyond before found after split earlier first stopped =>
    refine .beyond (opening :: before) found after ?_ ?_ first stopped
    · rw [split, List.cons_append]
    · exact List.forall_mem_cons.2 ⟨allowed, earlier⟩

variable {strict free : Parser α} {strict' free' : α → Parser β} {state reached : ParserState}

theorem Held.bind_error {error : SyntaxError}
    (held : Held limit openings (strict state) (free state))
    (failed : free state = .error error reached) :
    Held limit openings ((strict >>= strict') state) ((free >>= free') state) := by
  simp only [Bind.bind, EStateM.bind]
  cases held with
  | within all same => exact .within all (by simp only [same, failed])
  | beyond before found after split earlier first stopped =>
    obtain ⟨last, stopped⟩ := stopped
    exact .beyond before found after split earlier first ⟨last, by simp only [stopped]⟩

theorem Held.bind_ok {value : α} (held : Held limit openings (strict state) (free state))
    (read : free state = .ok value reached)
    (behind : Held limit more (strict' value reached) (free' value reached)) :
    Held limit (openings ++ more) ((strict >>= strict') state) ((free >>= free') state) := by
  simp only [Bind.bind, EStateM.bind, read]
  cases held with
  | within all same =>
    simp only [same, read]
    cases behind with
    | within all' same' => exact .within (List.forall_mem_append.2 ⟨all, all'⟩) same'
    | beyond before found after split earlier first stopped =>
      refine .beyond (openings ++ before) found after ?_ ?_ first stopped
      · rw [split, List.append_assoc]
      · exact List.forall_mem_append.2 ⟨all, earlier⟩
  | beyond before found after split earlier first stopped =>
    obtain ⟨last, stopped⟩ := stopped
    refine .beyond before found (after ++ more) ?_ earlier first ⟨last, by simp only [stopped]⟩
    rw [split, List.append_assoc, List.cons_append]

end Held

end SableSyntax
