/- SableSyntax/Persistence/Diagnostic
   digest: Diagnostics as JSON values. -/

import SableSyntax.Diagnostic
import SableSyntax.Persistence.Syntax

set_option autoImplicit false
set_option relaxedAutoImplicit false

namespace SableSyntax

namespace Severity

def toJson : Severity → Json
  | .error => .string "Error"

def ofJson? (json : Json) : Option Severity :=
  match json.name? with
  | some "Error" => some .error
  | _ => none

end Severity

namespace Diagnostic

def toJson (diagnostic : Diagnostic) : Json :=
  .object [("severity", diagnostic.severity.toJson), ("message", .string diagnostic.message),
    ("span", diagnostic.span.toJson), ("notes", .array (diagnostic.notes.map .string))]

def ofJson? : (levels : Nat) → Json → Option Diagnostic
  | 0, _ => none
  | levels + 1, json => do
    match ← json.fields? ["severity", "message", "span", "notes"] with
    | [some severity, some message, some span, some notes] =>
      return ⟨← Severity.ofJson? severity, ← message.string?, ← Span.ofJson? levels span,
        ← listOfJson? (fun _ => Json.string?) levels notes⟩
    | _ => none

end Diagnostic

end SableSyntax
