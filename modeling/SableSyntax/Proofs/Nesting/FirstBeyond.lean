/- SableSyntax/Proofs/Nesting/FirstBeyond
   digest: Reading stops at the first token that would open a level beyond the bound on nesting. -/

import SableSyntax.Proofs.Nesting.Openings
import SableSyntax.Proofs.Parsing.ReportedPlaces

set_option autoImplicit false
set_option relaxedAutoImplicit false

namespace SableSyntax

namespace Parser

open ParserState (Took)

variable {α β : Type}

def Quiet (used : List Token) : Prop := used.filter (·.kind.opensLevel) = []

/-- A reader held to a limit ends as one that goes further lets it, from a state. The openings are
the tokens that open levels among those that the other reader takes before it gives a value or
fails; a value and the state behind it tell something of the levels of all of them. -/
def HeldTo (limit : Nat) (strict free : Parser α) (state : ParserState)
    (shape : α → List Nat → ParserState → Prop) : Prop :=
  ∃ (used : List Token) (openings : List Opening),
    openings.map Opening.mark = used.filter (·.kind.opensLevel) ∧
    Held limit openings (strict state) (free state) ∧
    match free state with
    | .ok value reached =>
      Took state used reached ∧ shape value (openings.map Opening.level) reached
    | .error error _ => ∃ result rest, state.ahead = used.map .ok ++ result :: rest ∧
        Blames result error

section Rules

variable {limit : Nat} {state : ParserState} {shape : α → List Nat → ParserState → Prop}

theorem HeldTo.of_runs {parser : Parser α} {done : List Token → α → ParserState → Prop}
    {cut : List Token → Prop} (runs : parser.Runs state done cut)
    (finished : ∀ used value reached, Took state used reached → done used value reached →
      Quiet used ∧ shape value [] reached)
    (stopped : ∀ used, cut used → Quiet used) : HeldTo limit parser parser state shape := by
  unfold Runs at runs
  unfold HeldTo
  cases h : parser state with
  | ok value reached =>
    simp only [h] at runs ⊢
    obtain ⟨used, took, holds, -⟩ := runs
    obtain ⟨quiet, shaped⟩ := finished used value reached took holds
    exact ⟨used, [], quiet.symm, .refl _, took, shaped⟩
  | error error reached =>
    simp only [h] at runs ⊢
    obtain ⟨used, result, rest, same, blames, holds, -⟩ := runs
    exact ⟨used, [], (stopped used holds).symm, .refl _, result, rest, same, blames⟩

theorem HeldTo.pure {value : α} (shaped : shape value [] state) :
    HeldTo limit (pure value) (pure value) state shape :=
  ⟨[], [], rfl, .refl _, .refl state, shaped⟩

theorem HeldTo.throw {error : SyntaxError} {result : LexResult}
    (next : state.ahead.head? = some result) (blames : Blames result error) :
    HeldTo limit (throw error) (throw error) state shape := by
  obtain ⟨rest, same⟩ := List.head?_eq_some_iff.1 next
  exact ⟨[], [], rfl, .refl _, result, rest, same, blames⟩

theorem HeldTo.mono {strict free : Parser α} {shape' : α → List Nat → ParserState → Prop}
    (held : HeldTo limit strict free state shape)
    (le : ∀ value levels reached, shape value levels reached → shape' value levels reached) :
    HeldTo limit strict free state shape' := by
  unfold HeldTo at held ⊢
  obtain ⟨used, openings, marks, held, ends⟩ := held
  refine ⟨used, openings, marks, held, ?_⟩
  split at ends
  · exact ⟨ends.1, le _ _ _ ends.2⟩
  · exact ends

theorem HeldTo.bind {strict free : Parser α} {strict' free' : α → Parser β}
    {shape' : β → List Nat → ParserState → Prop} (held : HeldTo limit strict free state shape)
    (behind : ∀ value levels reached, shape value levels reached →
      HeldTo limit (strict' value) (free' value) reached fun result more =>
        shape' result (levels ++ more)) :
    HeldTo limit (strict >>= strict') (free >>= free') state shape' := by
  obtain ⟨used, openings, marks, held, ends⟩ := held
  cases read : free state with
  | error error reached =>
    simp only [read] at ends
    refine ⟨used, openings, marks, held.bind_error read, ?_⟩
    simpa only [Bind.bind, EStateM.bind, read] using ends
  | ok value reached =>
    simp only [read] at ends
    obtain ⟨took, shaped⟩ := ends
    obtain ⟨used', openings', marks', held', ends'⟩ := behind value _ reached shaped
    refine ⟨used ++ used', openings ++ openings', ?_, held.bind_ok read held', ?_⟩
    · rw [List.map_append, List.filter_append, marks, marks']
    · simp only [Bind.bind, EStateM.bind, read, List.map_append]
      cases ended : free' value reached with
      | ok result last =>
        simp only [ended] at ends'
        exact ⟨took.trans ends'.1, ends'.2⟩
      | error error last =>
        simp only [ended] at ends'
        obtain ⟨result, rest, same, blames⟩ := ends'
        exact ⟨result, rest, by simp [took.ahead_eq, same], blames⟩

/-- Behind a token that opens a level a reader is held to the limit if it stops at that token, or
if it goes on within the limit. -/
theorem HeldTo.behind_opening (opening : Opening) {reached : ParserState} {further : Nat}
    {strict free strict' free' : Parser α} (took : Took state [opening.mark] reached)
    (opens : opening.mark.kind.opensLevel) (goes : free state = free' reached)
    (inside : HeldTo further strict' free' reached fun value levels =>
      shape value (opening.level :: levels))
    (held : ∀ openings, Held further openings (strict' reached) (free' reached) →
      Held limit (opening :: openings) (strict state) (free' reached)) :
    HeldTo limit strict free state shape := by
  obtain ⟨used, openings, marks, heldInside, ends⟩ := inside
  unfold HeldTo
  rw [goes]
  refine ⟨opening.mark :: used, opening :: openings, ?_, held openings heldInside, ?_⟩
  · simp [opens, marks]
  · cases ended : free' reached with
    | ok value last =>
      simp only [ended] at ends
      exact ⟨took.trans ends.1, ends.2⟩
    | error error last =>
      simp only [ended] at ends
      obtain ⟨result, rest, same, blames⟩ := ends
      exact ⟨result, rest, by simp [took.ahead_eq, same], blames⟩

end Rules

section Primitives

variable {limit : Nat} {state : ParserState}

theorem peek_heldTo (state : ParserState) : HeldTo limit peek peek state
    fun token levels reached => levels = [] ∧ reached.ahead.head? = some (.ok token) := by
  refine .of_runs (peek_runs state) ?_ ?_
  · rintro used token reached - ⟨rfl, -, next⟩
    exact ⟨rfl, rfl, next⟩
  · rintro used rfl
    rfl

theorem advance_heldTo {token : Token} {rest : List LexResult}
    (next : state.ahead = .ok token :: rest) (notEnd : token.kind ≠ .endOfInput)
    (closed : token.kind.opensLevel = false) : HeldTo limit advance advance state
      fun found levels reached => found = token ∧ levels = [] ∧ reached.ahead = rest := by
  refine .of_runs (advance_runs (by rw [next]; rfl) notEnd) ?_ (fun _ => False.elim)
  rintro used found reached took ⟨rfl, rfl⟩
  have same : rest = reached.ahead := by simpa [next] using took.ahead_eq
  exact ⟨by simp [Quiet, closed], rfl, rfl, same.symm⟩

theorem advance_throw_heldTo {token : Token} {error : Token → SyntaxError}
    {shape : α → List Nat → ParserState → Prop} (next : state.ahead.head? = some (.ok token))
    (blames : Blames (.ok token) (error token)) :
    HeldTo limit
      (do
        let found ← advance
        throw (error found))
      (do
        let found ← advance
        throw (error found)) state shape := by
  have runs := @advance_throw_runs α state token error (fun _ _ _ => False) (· = []) next blames rfl
  refine .of_runs runs (fun _ _ _ _ => False.elim) ?_
  rintro used rfl
  rfl

theorem expect_heldTo {kind : TokenKind} (notEnd : kind ≠ .endOfInput)
    (closed : kind.opensLevel = false) (construct : Construct) (state : ParserState) :
    HeldTo limit (expect kind construct) (expect kind construct) state
      fun _ levels _ => levels = [] := by
  refine .of_runs (expect_runs notEnd construct state) ?_ ?_
  · rintro used token reached - ⟨rfl, same⟩
    exact ⟨by simp [Quiet, same, closed], rfl⟩
  · rintro used rfl
    rfl

theorem peekSecond_heldTo {first : Token} (next : state.ahead.head? = some (.ok first))
    (notEnd : first.kind ≠ .endOfInput) (closed : first.kind.opensLevel = false) :
    HeldTo limit peekSecond peekSecond state fun second levels reached =>
      levels = [] ∧ ∃ more, reached.ahead = .ok first :: .ok second :: more := by
  obtain ⟨rest, same⟩ := List.head?_eq_some_iff.1 next
  unfold HeldTo
  rcases peekSecond_cases same notEnd with
    ⟨second, reached, hpeek, took, behind⟩ | ⟨error, reached, hpeek, behind⟩
  · obtain ⟨more, rfl⟩ := List.head?_eq_some_iff.1 behind
    simp only [hpeek]
    exact ⟨[], [], rfl, .refl _, took, rfl, more, by rw [took.ahead_eq_of_nil, same]⟩
  · obtain ⟨more, rfl⟩ := List.head?_eq_some_iff.1 behind
    simp only [hpeek]
    exact ⟨[first], [], by simp [closed], .refl _, _, more, same, .fault error⟩

end Primitives

end Parser

namespace ExpressionReader

open SableSyntax.Parser (HeldTo peek_heldTo advance_heldTo advance_throw_heldTo expect_heldTo
  peekSecond_heldTo)

variable {α : Type} {limit depth : Nat}

/-- Readers that are held to a limit where a number of levels is open, while others go further. A
chain is told the left part that it goes on with, of which each link holds a level open. -/
structure HeldAt (limit depth : Nat) (strict free : ExpressionReader) : Prop where
  expression : ∀ state, HeldTo limit strict.expression free.expression state
    fun value levels _ => value.openings depth = levels
  binary : ∀ least state, HeldTo limit (strict.binary least) (free.binary least) state
    fun value levels _ => value.openings depth = levels
  chain : ∀ least around left state, around + left.leftSpine = depth →
    HeldTo limit (strict.chain least left) (free.chain least left) state
      fun value levels _ => value.openings around = left.openings around ++ levels

/-- What is held to the limit one level deeper: nothing where both may open no level, the readers
themselves while there is room, and where the limit is reached none at all, whatever limit the
others keep to. -/
inductive HeldBelow (limit depth : Nat) : Option ExpressionReader → Option ExpressionReader → Prop
  | ended : HeldBelow limit depth none none
  | barred {free : ExpressionReader} (further : Nat) (full : depth = limit)
    (held : HeldAt further (depth + 1) free free) : HeldBelow limit depth none (some free)
  | opened {strict free : ExpressionReader} (room : depth < limit)
    (held : HeldAt limit (depth + 1) strict free) :
    HeldBelow limit depth (some strict) (some free)

variable {inner inner' : Option ExpressionReader}

theorem advance_descend_some {state reached : ParserState} {opening : Token}
    {place : Token → Token} {go : ExpressionReader → Parser α}
    (hadvance : Parser.advance state = .ok opening reached) (reader : ExpressionReader) :
    (do
      let token ← Parser.advance
      let reader ← descend (some reader) (place token)
      go reader) state = go reader reached := by
  simp only [Bind.bind, EStateM.bind, hadvance]
  rfl

theorem descend_heldTo (below : HeldBelow limit depth inner inner') {opening : Token}
    {state : ParserState} {place : Token → Token} {go : ExpressionReader → Parser α}
    {shape : α → List Nat → ParserState → Prop}
    (next : state.ahead.head? = some (.ok opening)) (opens : opening.kind.opensLevel)
    (same : place opening = opening)
    (deeper : ∀ limit strict free reached, HeldAt limit (depth + 1) strict free →
      HeldTo limit (go strict) (go free) reached fun value levels =>
        shape value ((depth + 1) :: levels)) :
    HeldTo limit
      (do
        let token ← Parser.advance
        let reader ← descend inner (place token)
        go reader)
      (do
        let token ← Parser.advance
        let reader ← descend inner' (place token)
        go reader) state shape := by
  have notEnd := TokenKind.ne_endOfInput_of_opensLevel opens
  obtain ⟨reached, hadvance, took⟩ := Parser.advance_of_token next
  cases below with
  | ended =>
    -- Neither reader may go on, and the opening token itself is to blame.
    exact @Parser.advance_throw_heldTo α limit state opening
      (fun token => ⟨.nestingTooDeep maxNesting, (place token).span⟩) shape next
      (.token (congrArg Token.span same) (by simp [Fault.IsUnexpectedEnd, notEnd]))
  | @barred free further full held =>
    have first : depth + 1 = limit + 1 := congrArg (· + 1) full
    refine HeldTo.behind_opening ⟨opening, depth + 1⟩ (took notEnd) opens
      (advance_descend_some hadvance free) (deeper further free free reached held)
      fun openings _ => ?_
    refine .beyond [] _ openings rfl (List.forall_mem_nil _) first ⟨reached, ?_⟩
    simp only [Bind.bind, EStateM.bind, hadvance, same]
    rfl
  | @opened strict free room held =>
    refine HeldTo.behind_opening ⟨opening, depth + 1⟩ (took notEnd) opens
      (advance_descend_some hadvance free) (deeper limit strict free reached held)
      fun openings held => ?_
    rw [advance_descend_some hadvance strict]
    exact held.cons room

theorem primaryOver_heldTo (below : HeldBelow limit depth inner inner') (state : ParserState) :
    HeldTo limit (primaryOver inner) (primaryOver inner') state fun value levels _ =>
      value.leftSpine = 0 ∧ value.openings depth = levels := by
  refine (peek_heldTo state).bind ?_
  rintro token _ reached ⟨rfl, next⟩
  obtain ⟨rest, ahead⟩ := List.head?_eq_some_iff.1 next
  have leaf (e : Expression) (notEnd : token.kind ≠ .endOfInput)
      (closed : token.kind.opensLevel = false) (flat : e.leftSpine = 0 ∧ e.openings depth = []) :
      HeldTo limit (Parser.advance >>= fun _ => pure e) (Parser.advance >>= fun _ => pure e) reached
        fun value levels _ => value.leftSpine = 0 ∧ value.openings depth = levels := by
    refine (advance_heldTo ahead notEnd closed).bind ?_
    rintro _ _ last ⟨-, rfl, -⟩
    exact .pure flat
  cases kind : token.kind
  case integer =>
    cases number : integerValue? token.text.toList with
    | none =>
      exact advance_throw_heldTo next (.token rfl (by simp [Fault.IsUnexpectedEnd, kind]))
    | some value => exact leaf (.integer value _) (by simp [kind]) (by rw [kind]; rfl) ⟨rfl, rfl⟩
  case float =>
    cases number : floatValue? token.text.toList with
    | none =>
      exact advance_throw_heldTo next (.token rfl (by simp [Fault.IsUnexpectedEnd, kind]))
    | some value => exact leaf (.float value _) (by simp [kind]) (by rw [kind]; rfl) ⟨rfl, rfl⟩
  case identifier => exact leaf (.identifier _ _) (by simp [kind]) (by rw [kind]; rfl) ⟨rfl, rfl⟩
  case leftParen =>
    simp only [enclosed_bind]
    refine descend_heldTo below next (by rw [kind]; rfl) rfl ?_
    intro limit strict free inside held
    refine (held.expression inside).bind fun value levels behind same => ?_
    refine (expect_heldTo (by decide) rfl _ behind).bind ?_
    rintro close _ last rfl
    refine .pure ⟨rfl, ?_⟩
    simp [Expression.openings, same]
  all_goals exact .throw next (.unexpected _ _ _)

theorem chainOver_heldTo (below : HeldBelow limit depth inner inner') {least : Precedence}
    {around : Nat} {left : Expression} (links : around + left.leftSpine = depth)
    (state : ParserState) :
    HeldTo limit (chainOver inner least left) (chainOver inner' least left) state
      fun value levels _ => value.openings around = left.openings around ++ levels := by
  refine (peek_heldTo state).bind ?_
  rintro token _ reached ⟨rfl, next⟩
  cases isRule : token.kind.operatorRule? with
  | none => exact .pure (by simp)
  | some rule =>
    by_cases binds : least ≤ rule.precedence
    · simp only [binds, ↓reduceIte, Parser.operations_round, linkOver_bind]
      refine descend_heldTo below next (by simp [TokenKind.opensLevel, isRule]) rfl ?_
      intro limit strict free inside held
      refine (held.binary _ inside).bind fun right levels behind same => ?_
      -- The link keeps its level open, so that the chain goes on one level deeper.
      have longer : around + (Expression.binary rule.operator left right
          (left.span.through right.span)).leftSpine = depth + 1 := by
        simp only [Expression.leftSpine]
        omega
      refine (held.chain least around _ behind longer).mono fun value more _ further => ?_
      simp [further, Expression.openings, links, same]
    · simp only [binds, ↓reduceIte]
      exact .pure (by simp)

theorem binaryOver_heldTo (below : HeldBelow limit depth inner inner') (least : Precedence)
    (state : ParserState) :
    HeldTo limit (binaryOver inner least) (binaryOver inner' least) state
      fun value levels _ => value.openings depth = levels := by
  refine (primaryOver_heldTo below state).bind ?_
  rintro left levels behind ⟨leaf, rfl⟩
  exact chainOver_heldTo below (by rw [leaf, Nat.add_zero]) behind

theorem assignmentOver_heldTo (below : HeldBelow limit depth inner inner') {name mark : Token}
    {more : List LexResult} {state : ParserState}
    (next : state.ahead = .ok name :: .ok mark :: more) (target : name.kind = .identifier)
    (equal : mark.kind = .equal) :
    HeldTo limit (assignmentOver inner) (assignmentOver inner') state
      fun value levels _ => value.openings depth = levels := by
  refine (advance_heldTo next (by simp [target]) (by rw [target]; rfl)).bind ?_
  rintro _ _ behind ⟨rfl, rfl, ahead⟩
  simp only [enclosed_bind]
  refine descend_heldTo below (by rw [ahead]; rfl) (by rw [equal]; rfl) rfl ?_
  intro limit strict free inside held
  refine (held.expression inside).bind fun value levels last same => ?_
  refine .pure ?_
  simp [Expression.openings, same]

theorem expressionOver_heldTo (below : HeldBelow limit depth inner inner') (state : ParserState) :
    HeldTo limit (expressionOver inner) (expressionOver inner') state
      fun value levels _ => value.openings depth = levels := by
  refine (peek_heldTo state).bind ?_
  rintro first _ reached ⟨rfl, next⟩
  by_cases kind : first.kind = .identifier
  · simp only [kind, ↓reduceIte]
    refine (peekSecond_heldTo next (by simp [kind]) (by rw [kind]; rfl)).bind ?_
    rintro second _ looked ⟨rfl, more, ahead⟩
    by_cases equal : second.kind = .equal
    · simp only [equal, ↓reduceIte]
      exact assignmentOver_heldTo below ahead kind equal
    · simp only [equal, ↓reduceIte]
      exact binaryOver_heldTo below _ looked
  · simp only [kind, ↓reduceIte]
    exact binaryOver_heldTo below _ reached

theorem layer_heldAt (below : HeldBelow limit depth inner inner') :
    HeldAt limit depth (layer inner) (layer inner') :=
  ⟨expressionOver_heldTo below, binaryOver_heldTo below,
    fun _ _ _ state links => chainOver_heldTo below links state⟩

/-- Readers that may open some levels are held to what these and the levels around them come to,
while others may open as many or more. -/
theorem withLevels_heldAt {levels more : Nat} (le : levels ≤ more) (depth : Nat) :
    HeldAt (depth + levels) depth (withLevels levels) (withLevels more) := by
  induction more generalizing levels depth with
  | zero =>
    obtain rfl : levels = 0 := Nat.le_zero.1 le
    exact layer_heldAt .ended
  | succ more ih =>
    cases levels with
    | zero => exact layer_heldAt (.barred _ rfl (ih (Nat.le_refl more) (depth + 1)))
    | succ levels =>
      have held := ih (Nat.le_of_succ_le_succ le) (depth + 1)
      rw [Nat.add_right_comm] at held
      exact layer_heldAt (.opened (by omega) held)

end ExpressionReader

open ExpressionReader (unbounded layer withLevels)

section Outcomes

open SableSyntax.Parser (HeldTo after)
open ParserState (Took)

/-- Reading within the bound on nesting is reading without a bound, held to it. -/
theorem Parser.expression_heldTo (state : ParserState) :
    HeldTo maxNesting Parser.expression unbounded.expression state
      fun value levels _ => value.openings 0 = levels := by
  have more : maxNesting ≤ max state.size maxNesting := Nat.le_max_right _ _
  have held := (ExpressionReader.withLevels_heldAt more 0).expression state
  have same := (ExpressionReader.unbounded_agree (max state.size maxNesting)).expression state
    (Nat.lt_succ_of_le (Nat.le_max_left _ _))
  rw [Nat.zero_add] at held
  unfold HeldTo at held ⊢
  rw [same]
  exact held

theorem Parser.offset_lt_of_ahead {source : String} {calls : List Call} {used : List Token}
    {result : LexResult} {rest : List LexResult}
    (same : (after calls (.ofText source)).ahead = used.map .ok ++ result :: rest) {token : Token}
    (member : token ∈ used) (notEnd : token.kind ≠ .endOfInput) :
    token.span.start.offset < result.span.start.offset := by
  have inText := invariant_after (ParserState.IsIn.stable source.toList) calls
    (ParserState.isIn_ofText source)
  have each (cursor : Cursor) (token : Token) (reached : Cursor)
      (next : cursor.next = .ok token reached) (notEnd : token.kind ≠ .endOfInput) :
      token.span.start.offset < token.span.stop.offset := Cursor.offset_lt_of_next next notEnd
  have buffered : ∀ token ∈ (after calls (.ofText source)).lookahead, token.kind ≠ .endOfInput →
      token.span.start.offset < token.span.stop.offset :=
    invariant_after (ParserState.stable_buffered each) calls (List.forall_mem_nil _)
  have long : token.span.start.offset < token.span.stop.offset := by
    refine ParserState.forall_mem_ahead each buffered ?_ notEnd
    rw [same]
    exact List.mem_append_left _ (List.mem_map_of_mem member)
  have ordered := inText.laidOut_ahead.ordered
  rw [same] at ordered
  have before : token.span.Before result.span :=
    (List.pairwise_append.1 ordered).2.2 _ (List.mem_map_of_mem member) _ List.mem_cons_self
  exact Nat.lt_of_lt_of_le long before

/-- The bound on nesting is exceeded where it is said to be. Readers without a bound are those, and
the only ones, that are their own next layer. Where they read an expression, reading within the
bound gives the same if the expression needs no more levels than the bound; otherwise it fails, and
says so of the first token, in the order of the text, that would open one level more than the
bound. Where they fail, reading within the bound fails with the same error, or says of a token that
starts before that error that nesting is too deep. -/
theorem nesting_error_at_first_opening_beyond :
    (unbounded = layer (some unbounded) ∧
      ∀ reader, reader = layer (some reader) → reader = unbounded) ∧
    (∀ state e reached, unbounded.expression state = .ok e reached →
      ∃ (used : List Token) (openings : List Opening), Took state used reached ∧
        openings.map Opening.mark = used.filter (·.kind.opensLevel) ∧
        openings.map Opening.level = e.openings 0 ∧
        (e.need ≤ maxNesting → Parser.expression state = .ok e reached) ∧
        (maxNesting < e.need → ∃ before opening behind, openings = before ++ opening :: behind ∧
          (∀ earlier ∈ before, earlier.level ≤ maxNesting) ∧ opening.level = maxNesting + 1 ∧
          ∃ stopped, Parser.expression state =
            .error ⟨.nestingTooDeep maxNesting, opening.mark.span⟩ stopped)) ∧
    (∀ source calls error reached,
      unbounded.expression (after calls (.ofText source)) = .error error reached →
        Parser.expression (after calls (.ofText source)) = .error error reached ∨
        ∃ (opening : Token) (stopped : ParserState),
          Parser.expression (after calls (.ofText source)) =
            .error ⟨.nestingTooDeep maxNesting, opening.span⟩ stopped ∧
          opening.span.start.offset < error.location.offset) := by
  refine ⟨⟨ExpressionReader.unbounded_eq_layer, fun _ => ExpressionReader.eq_unbounded_of_eq_layer⟩,
    fun state e reached read => ?_, fun source calls error reached failed => ?_⟩
  · obtain ⟨used, openings, marks, held, ends⟩ := Parser.expression_heldTo state
    simp only [read] at held ends
    obtain ⟨took, levels⟩ := ends
    have within : (∀ opening ∈ openings, opening.level ≤ maxNesting) ↔ e.need ≤ maxNesting := by
      have each := e.openings_le_iff (Nat.zero_le maxNesting)
      rw [levels, List.forall_mem_map, Nat.zero_add] at each
      exact each
    refine ⟨used, openings, took, marks, levels.symm, ?_, ?_⟩
    · intro enough
      cases held with
      | within _ same => exact same
      | beyond before opening behind split _ first _ =>
        -- The opening beyond the bound would be one that the expression needs.
        have listed : opening ∈ openings := split ▸ List.mem_append_right _ List.mem_cons_self
        have := within.2 enough opening listed
        omega
    · intro deep
      cases held with
      | within all _ => exact absurd (within.1 all) (Nat.not_le_of_lt deep)
      | beyond before opening behind split earlier first stopped =>
        exact ⟨before, opening, behind, split, earlier, first, stopped⟩
  · obtain ⟨used, openings, marks, held, ends⟩ :=
      Parser.expression_heldTo (after calls (.ofText source))
    simp only [failed] at held ends
    obtain ⟨result, rest, ahead, blames⟩ := ends
    cases held with
    | within _ same => exact .inl same
    | beyond before opening behind split _ _ stopped =>
      obtain ⟨last, stopped⟩ := stopped
      have listed : opening.mark ∈ used.filter (·.kind.opensLevel) := by
        rw [← marks, split]
        exact List.mem_map_of_mem (List.mem_append_right _ List.mem_cons_self)
      obtain ⟨member, opens⟩ := List.mem_filter.1 listed
      have smaller := Parser.offset_lt_of_ahead ahead member
        (TokenKind.ne_endOfInput_of_opensLevel opens)
      refine .inr ⟨opening.mark, last, stopped, ?_⟩
      rwa [SyntaxError.location, blames.span_eq]

end Outcomes

end SableSyntax
