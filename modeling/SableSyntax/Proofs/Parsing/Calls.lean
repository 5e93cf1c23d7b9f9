/- SableSyntax/Proofs/Parsing/Calls
   digest: The readers of single constructs, called one after the other on one state. -/

import SableSyntax.Proofs.Grammar.Extents
import SableSyntax.Proofs.Parsing.Invariants
import SableSyntax.Proofs.Parsing.ProgramSoundness

set_option autoImplicit false
set_option relaxedAutoImplicit false

namespace SableSyntax

namespace Parser

/-- What a reader can be asked to read next. -/
inductive Call
  | program | function | parameterList | parameter | block | statement | variableDeclaration
  | expressionStatement | typeExpr | expression | binary (least : Precedence) | primary
  deriving DecidableEq, Repr

namespace Call

abbrev Node : Call → Type
  | .program => Program
  | .function => Function
  | .parameterList => List Parameter
  | .parameter => Parameter
  | .block => Block
  | .statement | .variableDeclaration | .expressionStatement => Statement
  | .typeExpr => TypeExpr
  | .expression | .binary _ | .primary => Expression

end Call

end Parser

/-- What is read for a call, by readers of expressions where no level is open. -/
def Operations.reader {m : Type → Type} [Monad m] [MonadExceptOf SyntaxError m] (on : Operations m)
    (top : Readers m) : (call : Parser.Call) → m call.Node
  | .program => on.program top.expression
  | .function => on.function top.expression
  | .parameterList => on.parameterList
  | .parameter => on.parameter
  | .block => on.block top.expression
  | .statement => on.statement top.expression
  | .variableDeclaration => on.variableDeclaration top.expression
  | .expressionStatement => on.expressionStatement top.expression
  | .typeExpr => on.typeExpr
  | .expression => top.expression
  | .binary least => top.binary least
  | .primary => top.primary

namespace Parser

namespace Call

def reader (call : Call) : Parser call.Node :=
  operations.reader (ExpressionReader.withLevels maxNesting) call

def outline : (call : Call) → call.Node → Outline
  | .program => Program.outline
  | .function => Function.outline
  | .parameterList => fun parameters => .join (parameters.map Parameter.outline)
  | .parameter => Parameter.outline
  | .block => Block.outline
  | .statement | .variableDeclaration | .expressionStatement => Statement.outline
  | .typeExpr => TypeExpr.outline
  | .expression | .binary _ | .primary => Expression.outline

theorem preserves {invariant : ParserState → Prop} (stable : Stable invariant) (call : Call) :
    call.reader.Preserves invariant := by
  cases call with
  | program => exact stable.program
  | function => exact stable.function
  | parameterList => exact stable.parameterList
  | parameter => exact stable.parameter
  | block => exact stable.block
  | statement => exact stable.statement
  | variableDeclaration => exact stable.variableDeclaration
  | expressionStatement => exact stable.expressionStatement
  | typeExpr => exact stable.typeExpr
  | expression => exact stable.expression
  | binary least => exact (stable.withLevels _).binary least
  | primary => exact (stable.withLevels _).primary

end Call

def after (calls : List Call) (state : ParserState) : ParserState :=
  calls.foldl (fun state call => (call.reader.step state).2) state

theorem invariant_after {invariant : ParserState → Prop} (stable : Stable invariant)
    (calls : List Call) {state : ParserState} (h : invariant state) :
    invariant (after calls state) := by
  induction calls generalizing state with
  | nil => exact h
  | cons call calls ih => exact ih (call.preserves stable state h)

end Parser

section Precedences

open ExpressionReader (withLevels layer linkOver_bind chainOver)

theorem Precedence.assignment_le (level : Precedence) : Precedence.assignment ≤ level := by
  cases level <;> decide

theorem additive_le_precedence {kind : TokenKind} {rule : OperatorRule}
    (isRule : kind.operatorRule? = some rule) : Precedence.additive ≤ rule.precedence := by
  cases kind <;> simp only [TokenKind.operatorRule?, Option.some.injEq, reduceCtorEq] at isRule
  all_goals
    subst isRule
    decide

theorem withLevels_assignment (levels : Nat) :
    (withLevels levels).binary .assignment = (withLevels levels).binary .additive ∧
      (withLevels levels).chain .assignment = (withLevels levels).chain .additive := by
  have chains (inner : Option ExpressionReader)
      (same : ∀ reader ∈ inner, reader.chain .assignment = reader.chain .additive) :
      chainOver inner .assignment = chainOver inner .additive := by
    funext left
    simp only [chainOver, Operations.chainOver, Parser.operations_round, linkOver_bind]
    congr
    funext token
    split
    · rfl
    · next rule isRule =>
      rw [if_pos (Precedence.assignment_le _), if_pos (additive_le_precedence isRule)]
      cases inner with
      | none => rfl
      | some reader => simp only [ExpressionReader.descend, pure_bind, same reader rfl]
  have step (inner : Option ExpressionReader)
      (same : ∀ reader ∈ inner, reader.chain .assignment = reader.chain .additive) :
      (layer inner).binary .assignment = (layer inner).binary .additive ∧
        (layer inner).chain .assignment = (layer inner).chain .additive := by
    have chains := chains inner same
    refine ⟨?_, chains⟩
    simp only [layer, Operations.layer, Operations.binaryOver, chains]
  induction levels with
  | zero =>
    refine step none fun reader member => ?_
    cases member
  | succ levels ih =>
    refine step (some _) fun reader member => ?_
    cases member
    exact ih.2

end Precedences

namespace Parser

open Grammar (Readable Viable)

/-- How a call runs: what it gives covers the tokens it took, but for a program without functions,
which is empty and stands before the end of the text. -/
def Places {α : Type} (outline : α → Outline) (parser : Parser α) (state : ParserState) : Prop :=
  parser.Runs state
    (fun used value reached => (outline value).Covers used ∨ ∃ stop, reached.ahead = [.ok stop] ∧
      outline value = .single (.point stop.span.start) .nil)
    fun _ => True

theorem ReadsAt.places {α : Type} {outline : α → Outline} {parser : Parser α} {state : ParserState}
    {rule : List Token → α → Prop} (reads : parser.ReadsAt state rule)
    (covers : ∀ tokens value, rule tokens value → (outline value).Covers tokens) :
    parser.Places outline state :=
  Runs.mono reads (fun used value _ _ derived => .inl (covers used value derived))
    fun _ _ => trivial

theorem primary_runs (state : ParserState) : primary.Runs state
    (fun used value _ => Readable maxNesting .primary used value)
    (Viable (Readable maxNesting .primary)) :=
  ExpressionReader.primaryOver_runs (.some (ExpressionReader.withLevels_sound 255)) state

theorem binary_runs (least : Precedence) (state : ParserState) : ∃ level,
    (binary least).Runs state (fun used value _ => Readable maxNesting level used value)
      fun _ => True := by
  have bounded (least : Precedence) (h : least ≠ .assignment) :
      (binary least).Runs state (fun used value _ => Readable maxNesting least used value)
        fun _ => True :=
    ((ExpressionReader.withLevels_sound maxNesting).binary least h state).mono
      (fun _ _ _ _ done => done.1) fun _ _ => trivial
  by_cases h : least = .assignment
  · refine ⟨.additive, ?_⟩
    rw [h, binary, (withLevels_assignment maxNesting).1]
    exact bounded .additive (by decide)
  · exact ⟨least, bounded least h⟩

theorem binary_places (least : Precedence) (state : ParserState) :
    (binary least).Places Expression.outline state := by
  obtain ⟨level, runs⟩ := binary_runs least state
  exact runs.mono (fun _ _ _ _ readable => .inl readable.derived.extent.covers) fun _ _ => trivial

theorem program_places (state : ParserState) : program.Places Program.outline state := by
  refine (program_runs state).mono ?_ fun _ _ => trivial
  rintro used value reached - ⟨stop, -, ends, derived⟩
  rcases derived.extent fun _ _ readable => readable.derived.extent with extent | ⟨-, rfl⟩
  · exact .inl extent.covers
  · exact .inr ⟨stop, ends, rfl⟩

theorem Call.places (call : Call) (state : ParserState) :
    call.reader.Places call.outline state := by
  have each (tokens : List Token) (value : Expression)
      (readable : Readable maxNesting .assignment tokens value) :
      Extent tokens value.span value.outline := readable.derived.extent
  cases call with
  | program => exact program_places state
  | function =>
    exact (function_reads.readsAt state).places fun _ _ derived => (derived.extent each).covers
  | parameterList =>
    exact (parameterList_reads.readsAt state).places fun _ _ derived => derived.covers
  | parameter =>
    exact (parameter_reads.readsAt state).places fun _ _ derived => derived.extent.covers
  | block =>
    exact (block_reads.readsAt state).places fun _ _ derived => (derived.extent each).covers
  | statement =>
    exact (statement_reads.readsAt state).places fun _ _ derived => (derived.extent each).covers
  | variableDeclaration =>
    exact (variableDeclaration_reads.readsAt state).places
      fun _ _ derived => (derived.extent each).covers
  | expressionStatement =>
    exact (expressionStatement_reads.readsAt state).places
      fun _ _ derived => (derived.extent each).covers
  | typeExpr =>
    exact (typeExpr_reads.readsAt state).places fun _ _ derived => derived.extent.covers
  | expression =>
    exact (expression_reads.readsAt state).places fun _ _ derived => (each _ _ derived).covers
  | binary least => exact binary_places least state
  | primary =>
    exact ReadsAt.places (primary_runs state) fun _ _ derived => derived.derived.extent.covers

end Parser

end SableSyntax
