/- SableSyntax/Text/Escape
   digest: A character written with printable ASCII only. -/

set_option autoImplicit false
set_option relaxedAutoImplicit false

namespace SableSyntax

/-- Quotes, backslash, tab and line ends are written with a backslash, other printable ASCII as
itself, and everything else by its code point in braces. -/
def escape (c : Char) : String :=
  match c with
  | '\t' => "\\t"
  | '\r' => "\\r"
  | '\n' => "\\n"
  | '\'' => "\\'"
  | '"' => "\\\""
  | '\\' => "\\\\"
  | c =>
    if 0x20 ≤ c.toNat ∧ c.toNat ≤ 0x7E then String.singleton c
    else "\\u\x7b" ++ String.ofList (Nat.toDigits 16 c.toNat) ++ "\x7d"

end SableSyntax
