/- SableSyntax/Parsing/Expression
   digest: Reading expressions by the binding of their operators, within a bound on nesting. -/

import SableSyntax.Parsing.Parser

set_option autoImplicit false
set_option relaxedAutoImplicit false

namespace SableSyntax

/-- How many levels of an expression may be open at once: parentheses, values of assignments and
links in chains of operators. -/
def maxNesting : Nat := 256

abbrev ExpressionReader := Readers Parser

namespace ExpressionReader

variable (inner : Option ExpressionReader)

def openLevel (opening : Token) : Parser Unit :=
  match inner with
  | some _ => return
  | none => throw ⟨.nestingTooDeep maxNesting, opening.span⟩

/-- The readers one level deeper. Where there are none the level is not opened, so that what stands
for them is never called. -/
def deeper : ExpressionReader :=
  let unreached : Parser Expression := throw ⟨.nestingTooDeep maxNesting, .point .start⟩
  inner.getD ⟨unreached, fun _ => unreached, fun _ _ => unreached, unreached⟩

def primaryOver : Parser Expression :=
  Parser.operations.primaryOver (openLevel inner) (deeper inner)

/-- Reads the links of a chain. Each link is one level deeper than the one before it. -/
def chainOver : Precedence → Expression → Parser Expression :=
  Parser.operations.chainOver (openLevel inner) (deeper inner)

def binaryOver : Precedence → Parser Expression :=
  Parser.operations.binaryOver (openLevel inner) (deeper inner) (chainOver inner)

def assignmentOver : Parser Expression :=
  Parser.operations.assignmentOver (openLevel inner) (deeper inner)

def expressionOver : Parser Expression :=
  Parser.operations.expressionOver (openLevel inner) (deeper inner) (chainOver inner)

def layer : ExpressionReader :=
  Parser.operations.layer (openLevel inner) (deeper inner) (chainOver inner)

def descend (opening : Token) : Parser ExpressionReader :=
  match inner with
  | some reader => return reader
  | none => throw ⟨.nestingTooDeep maxNesting, opening.span⟩

theorem openLevel_bind {β : Type} (opening : Token) (go : ExpressionReader → Parser β) :
    (do
      openLevel inner opening
      go (deeper inner)) = descend inner opening >>= go := by
  cases inner <;> rfl

theorem enclosed_eq (opening : Token) :
    Parser.operations.enclosed (openLevel inner) (deeper inner) opening = (do
      let reader ← descend inner opening
      reader.expression) :=
  openLevel_bind inner opening Readers.expression

theorem enclosed_bind {β : Type} (opening : Token) (go : Expression → Parser β) :
    Parser.operations.enclosed (openLevel inner) (deeper inner) opening >>= go = (do
      let reader ← descend inner opening
      let value ← reader.expression
      go value) := by
  rw [enclosed_eq, bind_assoc]

theorem linkOver_bind (opening : Token) (rule : OperatorRule) (left : Expression)
    (least : Precedence) :
    Parser.operations.linkOver (openLevel inner) (deeper inner) opening rule left >>=
      (deeper inner).chain least = (do
      let _ ← Parser.advance
      let reader ← descend inner opening
      let right ← reader.binary rule.rightOperand
      reader.chain least (.binary rule.operator left right (left.span.through right.span))) := by
  simp only [Operations.linkOver, bind_assoc, pure_bind, Parser.operations_advance]
  refine congrArg (Parser.advance >>= ·) (funext fun _ => ?_)
  exact openLevel_bind inner opening fun reader => reader.binary rule.rightOperand >>= fun right =>
    reader.chain least (.binary rule.operator left right (left.span.through right.span))

/-- The readers that may open a number of further levels. -/
def withLevels : Nat → ExpressionReader
  | 0 => layer none
  | levels + 1 => layer (some (withLevels levels))

end ExpressionReader

namespace Parser

def expression : Parser Expression := (ExpressionReader.withLevels maxNesting).expression

def binary (least : Precedence) : Parser Expression :=
  (ExpressionReader.withLevels maxNesting).binary least

def primary : Parser Expression := (ExpressionReader.withLevels maxNesting).primary

end Parser

end SableSyntax
