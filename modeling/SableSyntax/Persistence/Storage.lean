/- SableSyntax/Persistence/Storage
   digest: Values stored as JSON texts, and read back within a bound on their nesting. -/

import SableSyntax.Json.Reading
import SableSyntax.Json.Writing
import SableSyntax.Persistence.Diagnostic

set_option autoImplicit false
set_option relaxedAutoImplicit false

namespace SableSyntax

/-- How a type of values is stored, whichever library is to do so. The reader is told how many
levels deep the parts may lie. -/
class Storable (α : Type) where
  toJson : α → Json
  ofJson? : (levels : Nat) → Json → Option α

instance : Storable Span := ⟨Span.toJson, Span.ofJson?⟩

instance : Storable TokenKind := ⟨TokenKind.toJson, fun _ => TokenKind.ofJson?⟩

instance : Storable TokenCategory := ⟨TokenCategory.toJson, fun _ => TokenCategory.ofJson?⟩

instance : Storable TypeExpr := ⟨TypeExpr.toJson, TypeExpr.ofJson?⟩

instance : Storable Expression := ⟨Expression.toJson, Expression.ofJson?⟩

instance : Storable Statement := ⟨Statement.toJson, Statement.ofJson?⟩

instance : Storable Program := ⟨Program.toJson, Program.ofJson?⟩

instance : Storable Diagnostic := ⟨Diagnostic.toJson, Diagnostic.ofJson?⟩

/-- How many arrays and objects may be open at once around a part of a stored value. -/
def maxStoredDepth : Nat := 127

def store {α : Type} [Storable α] (value : α) : String := (Storable.toJson value).write

def restore? {α : Type} [Storable α] (text : String) : Option α :=
  Json.read? text >>= Storable.ofJson? maxStoredDepth

end SableSyntax
