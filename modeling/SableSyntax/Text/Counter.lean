/- SableSyntax/Text/Counter
   digest: Lines and columns counted in 32 bits. -/

import SableSyntax.SyntaxError

set_option autoImplicit false
set_option relaxedAutoImplicit false

namespace SableSyntax

/-- What comes of adding one to the greatest number of 32 bits: where arithmetic is checked the
program stops and returns nothing, where it is not the counter goes on from zero. -/
inductive Overflow
  | stops | wraps
  deriving DecidableEq, Repr

def Overflow.next? : Overflow → Nat → Option Nat
  | .stops, count => if count + 1 < UInt32.size then some (count + 1) else none
  | .wraps, count => some ((count + 1) % UInt32.size)

namespace Location

def advance? (overflow : Overflow) (place : Location) (c : Char) : Option Location :=
  if c = '\n' then
    (overflow.next? place.line).map fun line => ⟨place.offset + c.utf8Size, line, 1⟩
  else (overflow.next? place.column).map fun column =>
    ⟨place.offset + c.utf8Size, place.line, column⟩

/-- The place behind a text, counted from its first character on. -/
def track? (overflow : Overflow) (text : List Char) : Option Location :=
  text.foldlM (advance? overflow) .start

/-- A place of a text as it is counted on the way to it. Only bytes decide where it is. -/
def tracked? (overflow : Overflow) (text : List Char) (place : Location) : Option Location := do
  let (before, _) ← cutBytes? place.offset text
  track? overflow before

end Location

def Span.tracked? (overflow : Overflow) (text : List Char) (span : Span) : Option Span := do
  return ⟨← span.start.tracked? overflow text, ← span.stop.tracked? overflow text⟩

def SyntaxError.tracked? (overflow : Overflow) (text : List Char) (error : SyntaxError) :
    Option SyntaxError := do
  return ⟨error.fault, ← error.span.tracked? overflow text⟩

end SableSyntax
