/- SableSyntax/Proofs/Sessions/Readers
   digest: Every reader of a session mirrors its parser, whatever was called before. -/

import SableSyntax.Proofs.Sessions.Mirrors

set_option autoImplicit false
set_option relaxedAutoImplicit false

namespace SableSyntax

namespace Session

variable {α β : Type} {levels : Nat}

/-- A reader mirrors a parser wherever a number of levels is open, and leaves that many open. What
it gives tells something of the place where the last token stops. -/
def Mirrors (levels : Nat) (reader : Reader α) (parser : Parser α)
    (ends : α → Location → Prop) : Prop :=
  ∀ session, session.openLevels = levels → MirrorsAt session reader parser
    (fun value reached => reached.openLevels = levels ∧ ends value reached.lastStop)
    (fun reached => reached.openLevels = levels)

namespace Mirrors

variable {reader : Reader α} {parser : Parser α} {ends : α → Location → Prop}
  {ends' : β → Location → Prop}

theorem pure (value : α) : Mirrors levels (pure value) (pure value) fun _ _ => True :=
  fun _ same => .pure rfl ⟨same, trivial⟩

theorem throw {error : SyntaxError} (other : error.fault.isLexical = false) :
    Mirrors levels (throw error) (throw error) ends :=
  fun _ same => .throw other same

theorem mono {ends' : α → Location → Prop} (h : Mirrors levels reader parser ends)
    (le : ∀ value place, ends value place → ends' value place) :
    Mirrors levels reader parser ends' :=
  fun session same => (h session same).mono
    (fun value reached holds => ⟨holds.1, le value reached.lastStop holds.2⟩) fun _ => id

theorem bind {go : α → Reader β} {go' : α → Parser β} (h : Mirrors levels reader parser ends)
    (next : ∀ value, Mirrors levels (go value) (go' value) ends') :
    Mirrors levels (reader >>= go) (parser >>= go') ends' :=
  fun session same => (h session same).bind (fun _ => id)
    fun value reached holds => next value reached holds.1

theorem bind_stop {stop : α → Location} {go : α → Reader β} {go' : α → Parser β}
    (h : Mirrors levels reader parser fun value place => place = stop value)
    (next : ∀ value session, session.openLevels = levels → session.lastStop = stop value →
      MirrorsAt session (go value) (go' value)
        (fun value reached => reached.openLevels = levels ∧ ends' value reached.lastStop)
        (fun reached => reached.openLevels = levels)) :
    Mirrors levels (reader >>= go) (parser >>= go') ends' :=
  fun session same => (h session same).bind (fun _ => id)
    fun value reached holds => next value reached holds.1 holds.2

end Mirrors

section Tokens

variable {test : Token → Bool} {reader : Reader α} {parser : Parser α}

theorem advance_mirrors : Mirrors levels advance Parser.advance
    fun token place => place = token.span.stop :=
  fun _ => advance_mirrorsAt

theorem peek_bind_mirrors {go : Token → Reader β} {go' : Token → Parser β}
    {ends : β → Location → Prop} (next : ∀ token, Mirrors levels (go token) (go' token) ends) :
    Mirrors levels (peek >>= go) (Parser.peek >>= go') ends :=
  fun _ same => (peek_mirrorsAt same).bind (fun _ => id)
    fun token reached holds => next token reached holds.1

theorem isLexical_unexpected (found : Token) (expected : Expected) (construct : Construct) :
    (SyntaxError.unexpected found expected construct).fault.isLexical = false := by
  unfold SyntaxError.unexpected
  split <;> rfl

theorem expect_mirrors (kind : TokenKind) (construct : Construct) :
    Mirrors levels (operations.expect kind construct) (Parser.expect kind construct)
      fun token place => place = token.span.stop := by
  refine peek_bind_mirrors fun token => ?_
  split
  · exact advance_mirrors
  · exact .throw (isLexical_unexpected _ _ _)

theorem record_bind_mirrors {event : TraceEvent} {go : Unit → Reader α} {go' : Unit → Parser α}
    {ends : α → Location → Prop} (h : Mirrors levels (go ()) (go' ()) ends) :
    Mirrors levels (record event >>= go) (Parser.record event >>= go') ends :=
  fun _ same => (record_mirrorsAt event same).bind (fun _ => id)
    fun _ reached holds => h reached holds.1

/-- Where the last part stops with the token used last, the stretch is the one that a parser
tells. -/
theorem spanFrom_bind_mirrorsAt {session : Session} {first last : Span}
    {go : Span → Reader α} {go' : Span → Parser α} {done : α → Session → Prop}
    {failed : Session → Prop} (stops : session.lastStop = last.stop)
    (next : MirrorsAt session (go (first.through last)) (go' (first.through last)) done failed) :
    MirrorsAt session (operations.spanFrom first last >>= go)
      (Parser.operations.spanFrom first last >>= go') done failed := by
  have told : MirrorsAt session (operations.spanFrom first last)
      (Parser.operations.spanFrom first last)
      (fun span reached => span = first.through last ∧ reached = session) (fun _ => False) := by
    refine .inl ⟨⟨first.start, session.lastStop⟩, session, rfl, ?_, .refl session, ?_, rfl⟩
    · rw [stops]
      rfl
    · rw [stops, Span.through]
  refine told.bind (fun _ => False.elim) ?_
  rintro _ _ ⟨rfl, rfl⟩
  exact next

theorem repeatWhile_mirrorsAt {stop : α → Location}
    (item : Mirrors levels reader parser fun value place => place = stop value) {session : Session}
    (same : session.openLevels = levels) :
    MirrorsAt session (repeatWhile test reader) (Parser.repeatWhile test parser)
      (fun values reached => reached.openLevels = levels ∧
        reached.lastStop = (values.getLast?.map stop).getD session.lastStop)
      (fun reached => reached.openLevels = levels) := by
  have bounded (bound : Nat) : MirrorsAt session (repeatBounded test reader bound)
      (Parser.repeatBounded test parser bound)
      (fun values reached => reached.openLevels = levels ∧
        reached.lastStop = (values.getLast?.map stop).getD session.lastStop)
      (fun reached => reached.openLevels = levels) := by
    induction bound generalizing session with
    | zero => exact .pure rfl ⟨same, rfl⟩
    | succ bound ih =>
      refine (peek_mirrorsAt same).bind (fun _ => id) ?_
      rintro token middle ⟨same, unmoved, -⟩
      split
      · refine (item middle same).bind (fun _ => id) ?_
        rintro first reached ⟨same, stops⟩
        refine (ih same).bind (fun _ => id) ?_
        rintro rest last ⟨same, stops'⟩
        refine .pure rfl ⟨same, ?_⟩
        rw [stops', stops, List.getLast?_cons]
        cases rest.getLast? <;> rfl
      · exact .pure rfl ⟨same, unmoved⟩
  exact bounded (session.size + 1)

theorem repeatWhile_mirrors {stop : α → Location}
    (item : Mirrors levels reader parser fun value place => place = stop value) :
    Mirrors levels (repeatWhile test reader) (Parser.repeatWhile test parser) fun _ _ => True :=
  fun _ same => (repeatWhile_mirrorsAt item same).mono (fun _ _ holds => ⟨holds.1, trivial⟩)
    fun _ => id

end Tokens

section Expressions

open ExpressionReader (descend withLevels)

/-- Readers of expressions mirror those of parsers wherever a number of levels is open. A chain of
operators may leave more of them open. -/
structure Readers.Mirror (inner : Readers) (reader : ExpressionReader) (levels : Nat) : Prop where
  expression : Mirrors levels inner.expression reader.expression fun _ _ => True
  binary : ∀ least, Mirrors levels (inner.binary least) (reader.binary least) fun _ _ => True
  chain : ∀ least left session, session.openLevels = levels →
    MirrorsAt session (inner.chain least left) (reader.chain least left) (fun _ _ => True)
      (fun _ => True)
  primary : Mirrors levels inner.primary reader.primary fun _ _ => True

/-- The readers one level deeper mirror those of a parser, unless no further level may be opened:
then they are never called, whatever they are. -/
inductive Readers.Below (inner : Readers) : Option ExpressionReader → Nat → Prop
  | none : Below inner none maxNesting
  | some {reader : ExpressionReader} {levels : Nat} (mirror : inner.Mirror reader (levels + 1))
    (lt : levels < maxNesting) : Below inner (some reader) levels

variable {inner : Readers} {deeper : Option ExpressionReader}

theorem descend_bind_mirrorsAt (below : inner.Below deeper levels) {opening : Token}
    {go : Reader β} {go' : ExpressionReader → Parser β} {done : β → Session → Prop}
    {failed : Session → Prop} {session : Session} (same : session.openLevels = levels)
    (stopped : failed session)
    (next : ∀ reader reached, inner.Mirror reader (levels + 1) →
      reached.openLevels = levels + 1 → MirrorsAt reached go (go' reader) done failed) :
    MirrorsAt session (enterLevel opening >>= fun _ => go) (descend deeper opening >>= go') done
      failed := by
  cases below with
  | none =>
    -- All levels are open, and the opening token itself is to blame.
    have entered : enterLevel opening session =
        .error ⟨.nestingTooDeep maxNesting, opening.span⟩ session := by simp [enterLevel, same]
    refine .inr ⟨⟨.nestingTooDeep maxNesting, opening.span⟩, session, ?_, rfl, ?_, stopped⟩
    · simp only [Bind.bind, EStateM.bind, entered]
    · exact .refl session
  | @some reader levels mirror lt =>
    have entered : enterLevel opening session =
        .ok () { session with openLevels := session.openLevels + 1 } := by
      simp [enterLevel, same, lt]
    have leads : Leads session [] { session with openLevels := session.openLevels + 1 } :=
      ⟨Nat.le_max_right _ _, [], [], rfl, rfl, by simp, by simp⟩
    have opened : MirrorsAt session (enterLevel opening) (pure ())
        (fun _ reached => reached = { session with openLevels := session.openLevels + 1 })
        failed :=
      .inl ⟨(), _, entered, rfl, leads, rfl⟩
    have rest : MirrorsAt session (enterLevel opening >>= fun _ => go)
        (Pure.pure () >>= fun _ => go' reader) done failed :=
      opened.bind (fun _ => id) fun _ reached h => next reader reached mirror (by rw [h, same])
    exact rest

theorem restoring_mirrorsAt {reader : Reader α} {parser : Parser α} {session : Session}
    (same : session.openLevels = levels)
    (h : MirrorsAt session reader parser (fun _ _ => True) (fun _ => True)) :
    MirrorsAt session (restoring reader) parser
      (fun _ reached => reached.openLevels = levels ∧ True)
      (fun reached => reached.openLevels = levels) := by
  rcases h with ⟨value, reached, ends, ends', leads, -⟩ | ⟨error, reached, ends, ends', leads, -⟩
  · refine .inl ⟨value, { reached with openLevels := session.openLevels }, ?_, ends',
      ⟨leads.buffered, leads.history⟩, same, trivial⟩
    simp only [restoring, ends]
  · refine .inr ⟨error, { reached with openLevels := session.openLevels }, ?_, ends',
      ⟨leads.buffered, leads.history⟩, same⟩
    simp only [restoring, ends]

theorem enclosed_mirrors (below : inner.Below deeper levels) (opening : Token) :
    Mirrors levels (operations.enclosed enterLevel inner opening)
      (Parser.operations.enclosed (ExpressionReader.openLevel deeper)
        (ExpressionReader.deeper deeper) opening) fun _ _ => True := by
  rw [ExpressionReader.enclosed_eq]
  exact fun _ same => restoring_mirrorsAt same <|
    descend_bind_mirrorsAt below same trivial fun _ reached mirror same' =>
      (mirror.expression reached same').mono (fun _ _ _ => trivial) fun _ _ => trivial

theorem primaryOver_mirrors (below : inner.Below deeper levels) :
    Mirrors levels (operations.primaryOver enterLevel inner) (ExpressionReader.primaryOver deeper)
      fun _ _ => True := by
  refine peek_bind_mirrors fun token => ?_
  cases token.kind
  case integer =>
    refine advance_mirrors.bind fun _ => ?_
    cases integerValue? token.text.toList with
    | some value => exact .pure _
    | none => exact .throw rfl
  case float =>
    refine advance_mirrors.bind fun _ => ?_
    cases floatValue? token.text.toList with
    | some value => exact .pure _
    | none => exact .throw rfl
  case identifier => exact advance_mirrors.bind fun _ => .pure _
  case leftParen =>
    exact advance_mirrors.bind fun _ => (enclosed_mirrors below _).bind fun _ =>
      (expect_mirrors _ _).bind fun _ => .pure _
  all_goals exact .throw (isLexical_unexpected _ _ _)

theorem chainOver_mirrorsAt (below : inner.Below deeper levels) (least : Precedence)
    (left : Expression) {session : Session} (same : session.openLevels = levels) :
    MirrorsAt session (operations.chainOver enterLevel inner least left)
      (ExpressionReader.chainOver deeper least left) (fun _ _ => True) (fun _ => True) := by
  refine (peek_mirrorsAt same).bind (fun _ _ => trivial) fun token reached holds => ?_
  cases token.kind.operatorRule? with
  | none => exact .pure rfl trivial
  | some rule =>
    by_cases binds : least ≤ rule.precedence
    · simp only [binds, ↓reduceIte, operations_round, Parser.operations_round,
        ExpressionReader.linkOver_bind]
      simp only [Operations.linkOver, bind_assoc, pure_bind]
      refine (advance_mirrors reached holds.1).bind (fun _ _ => trivial) fun _ behind holds' => ?_
      refine descend_bind_mirrorsAt below holds'.1 trivial fun reader inside mirror same => ?_
      exact (mirror.binary _ inside same).bind (fun _ _ => trivial) fun _ last holds =>
        mirror.chain _ _ last holds.1
    · simp only [binds, ↓reduceIte]
      exact .pure rfl trivial

theorem binaryOver_mirrors (below : inner.Below deeper levels) (least : Precedence) :
    Mirrors levels (inner.layer.binary least) (ExpressionReader.binaryOver deeper least)
      fun _ _ => True :=
  (primaryOver_mirrors below).bind fun left _ same =>
    restoring_mirrorsAt same (chainOver_mirrorsAt below least left same)

theorem assignmentOver_mirrors (below : inner.Below deeper levels) :
    Mirrors levels (operations.assignmentOver enterLevel inner)
      (ExpressionReader.assignmentOver deeper) fun _ _ => True :=
  advance_mirrors.bind fun _ => advance_mirrors.bind fun _ =>
    (enclosed_mirrors below _).bind fun _ => .pure _

theorem expressionOver_mirrors (below : inner.Below deeper levels) :
    Mirrors levels inner.layer.expression (ExpressionReader.expressionOver deeper)
      fun _ _ => True := by
  intro session same
  refine (peek_mirrorsAt same).bind (fun _ => id) ?_
  rintro first ahead ⟨same, -, looked⟩
  split
  · -- The first token has been looked at, so that only the second one may be missing.
    refine (peekNth_mirrorsAt same looked).bind (fun _ => id) fun second reached same => ?_
    split
    · exact assignmentOver_mirrors below reached same
    · exact binaryOver_mirrors below _ reached same
  · exact binaryOver_mirrors below _ ahead same

theorem layer_mirror (below : inner.Below deeper levels) :
    inner.layer.Mirror (ExpressionReader.layer deeper) levels :=
  ⟨expressionOver_mirrors below, binaryOver_mirrors below,
    fun least left _ => chainOver_mirrorsAt below least left, primaryOver_mirrors below⟩

/-- Readers that call each other once for each level that may still be opened, and once more,
mirror those that may open these levels. -/
theorem unrolled_mirror (beyond : Readers) {left : Nat} (all : levels + left = maxNesting) :
    (beyond.unrolled (left + 1)).Mirror (withLevels left) levels := by
  induction left generalizing levels with
  | zero =>
    obtain rfl : levels = maxNesting := all
    exact layer_mirror .none
  | succ left ih => exact layer_mirror (.some (ih (by omega)) (by omega))

theorem top_mirror (beyond : Readers) : beyond.top.Mirror (withLevels maxNesting) 0 :=
  unrolled_mirror beyond (Nat.zero_add maxNesting)

end Expressions

section Programs

theorem identifier_mirrors (construct : Construct) :
    Mirrors levels (operations.identifier construct) (Parser.identifier construct)
      fun name place => place = name.span.stop :=
  (expect_mirrors _ _).bind_stop fun _ _ same stops => .pure rfl ⟨same, stops⟩

theorem typeExpr_mirrors :
    Mirrors levels operations.typeExpr Parser.typeExpr
      fun type place => place = type.span.stop := by
  refine (identifier_mirrors _).bind_stop fun base session same named => ?_
  refine (repeatWhile_mirrorsAt advance_mirrors same).bind (fun _ => id) fun marks reached h => ?_
  -- The last token is the last mark, or the name where there is none.
  have stops : reached.lastStop = ((marks.getLast?.map Token.span).getD base.span).stop := by
    rw [h.2, named]
    cases marks.getLast? <;> rfl
  exact spanFrom_bind_mirrorsAt stops (.pure rfl ⟨h.1, stops⟩)

theorem parameter_mirrors :
    Mirrors levels operations.parameter Parser.parameter
      fun parameter place => place = parameter.span.stop :=
  (identifier_mirrors _).bind fun _ => (expect_mirrors _ _).bind fun _ =>
    typeExpr_mirrors.bind_stop fun _ _ same stops =>
      spanFrom_bind_mirrorsAt stops (.pure rfl ⟨same, stops⟩)

theorem parameterList_mirrors :
    Mirrors levels operations.parameterList Parser.parameterList fun _ _ => True := by
  refine peek_bind_mirrors fun token => ?_
  split
  · exact .pure _
  · exact parameter_mirrors.bind fun _ =>
      (repeatWhile_mirrors (advance_mirrors.bind fun _ => parameter_mirrors)).bind fun _ =>
        .pure _

theorem declaredType_mirrors :
    Mirrors levels operations.declaredType Parser.declaredType fun _ _ => True := by
  refine peek_bind_mirrors fun token => ?_
  split
  · exact advance_mirrors.bind fun _ => typeExpr_mirrors.bind fun _ => .pure _
  · exact .pure _

theorem initializerMark_mirrors (name : String) :
    Mirrors levels (operations.initializerMark name) (Parser.initializerMark name)
      fun _ _ => True := by
  refine peek_bind_mirrors fun token => ?_
  cases token.kind
  case equal => exact advance_mirrors.mono fun _ _ _ => trivial
  case endOfInput => exact .throw (isLexical_unexpected _ _ _)
  all_goals exact .throw rfl

section Expressions

variable {expression : Reader Expression}
  (inside : Mirrors 0 expression Parser.expression fun _ _ => True)

include inside

theorem variableDeclaration_mirrors : Mirrors 0 (operations.variableDeclaration expression)
    Parser.variableDeclaration fun statement place => place = statement.span.stop :=
  (expect_mirrors _ _).bind fun _ => (identifier_mirrors _).bind fun _ =>
    declaredType_mirrors.bind fun _ => (initializerMark_mirrors _).bind fun _ =>
      inside.bind fun _ => (expect_mirrors _ _).bind_stop fun _ _ same stops =>
        spanFrom_bind_mirrorsAt stops (.pure rfl ⟨same, stops⟩)

theorem expressionStatement_mirrors : Mirrors 0 (operations.expressionStatement expression)
    Parser.expressionStatement fun statement place => place = statement.span.stop :=
  inside.bind fun _ => (expect_mirrors _ _).bind_stop fun _ _ same stops =>
    spanFrom_bind_mirrorsAt stops (.pure rfl ⟨same, stops⟩)

theorem statement_mirrors : Mirrors 0 (operations.statement expression) Parser.statement
    fun statement place => place = statement.span.stop := by
  refine peek_bind_mirrors fun token => ?_
  split
  · exact variableDeclaration_mirrors inside
  · exact expressionStatement_mirrors inside

theorem block_mirrors : Mirrors 0 (operations.block expression) Parser.block
    fun block place => place = block.span.stop := by
  refine (expect_mirrors _ _).bind fun opening => record_bind_mirrors ?_
  exact (repeatWhile_mirrors (statement_mirrors inside)).bind fun _ =>
    (expect_mirrors _ _).bind_stop fun _ _ same stops => .pure rfl ⟨same, stops⟩

theorem functionBody_mirrors : Mirrors 0 (operations.functionBody expression) Parser.functionBody
    fun body place => place = body.2.stop := by
  refine peek_bind_mirrors fun token => ?_
  cases token.kind
  case leftBrace =>
    exact (block_mirrors inside).bind_stop fun _ _ same stops => .pure rfl ⟨same, stops⟩
  case semicolon =>
    exact advance_mirrors.bind_stop fun _ _ same stops => .pure rfl ⟨same, stops⟩
  all_goals exact .throw (isLexical_unexpected _ _ _)

theorem function_mirrors : Mirrors 0 (operations.function expression) Parser.function
    fun function place => place = function.span.stop :=
  (expect_mirrors _ _).bind fun _ => (identifier_mirrors _).bind fun _ => record_bind_mirrors <|
    (expect_mirrors _ _).bind fun _ => parameterList_mirrors.bind fun _ =>
      (expect_mirrors _ _).bind fun _ => (expect_mirrors _ _).bind fun _ =>
        typeExpr_mirrors.bind fun _ =>
          (functionBody_mirrors inside).bind_stop fun _ _ same stops =>
            spanFrom_bind_mirrorsAt stops (.pure rfl ⟨same, stops⟩)

theorem program_mirrors :
    Mirrors 0 (operations.program expression) Parser.program fun _ _ => True := by
  refine peek_bind_mirrors fun first session same => ?_
  refine (repeatWhile_mirrorsAt (function_mirrors inside) same).bind (fun _ => id) ?_
  rintro functions behind ⟨same, stops⟩
  refine (peek_mirrorsAt same).bind (fun _ => id) ?_
  rintro next reached ⟨same, unmoved, -⟩
  split
  · refine (record_mirrorsAt _ same).bind (fun _ => id) ?_
    rintro _ last ⟨same, unmoved'⟩
    unfold Operations.programSpan
    -- The program stops with its last function, or at its start where it has none.
    rw [unmoved] at unmoved'
    rw [stops] at unmoved'
    cases ends : functions.getLast? with
    | none => exact .pure rfl ⟨same, trivial⟩
    | some function =>
      rw [ends] at unmoved'
      exact spanFrom_bind_mirrorsAt unmoved' (.pure rfl ⟨same, trivial⟩)
  · exact .throw rfl same

end Expressions

end Programs

/-- Every call in a session comes to what it comes to for a parser, and leaves no level open. -/
theorem reader_mirrors (beyond : Readers) (call : Parser.Call) :
    Mirrors 0 (reader beyond call) call.reader fun _ _ => True := by
  have top := top_mirror beyond
  have inside : Mirrors 0 beyond.top.expression Parser.expression fun _ _ => True := top.expression
  cases call with
  | program => exact program_mirrors inside
  | function => exact (function_mirrors inside).mono fun _ _ _ => trivial
  | parameterList => exact parameterList_mirrors
  | parameter => exact parameter_mirrors.mono fun _ _ _ => trivial
  | block => exact (block_mirrors inside).mono fun _ _ _ => trivial
  | statement => exact (statement_mirrors inside).mono fun _ _ _ => trivial
  | variableDeclaration => exact (variableDeclaration_mirrors inside).mono fun _ _ _ => trivial
  | expressionStatement => exact (expressionStatement_mirrors inside).mono fun _ _ _ => trivial
  | typeExpr => exact typeExpr_mirrors.mono fun _ _ _ => trivial
  | expression => exact inside
  | binary least => exact top.binary least
  | primary => exact top.primary

end Session

end SableSyntax
