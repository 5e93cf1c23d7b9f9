/- SableSyntax/Text/Blank
   digest: The characters with Unicode's White_Space property. -/

set_option autoImplicit false
set_option relaxedAutoImplicit false

namespace SableSyntax

/-- The code points of White_Space as closed ranges, in rising order. -/
def blankRanges : List (Nat × Nat) :=
  [(0x09, 0x0D), (0x20, 0x20), (0x85, 0x85), (0xA0, 0xA0), (0x1680, 0x1680), (0x2000, 0x200A),
    (0x2028, 0x2029), (0x202F, 0x202F), (0x205F, 0x205F), (0x3000, 0x3000)]

def isBlank (c : Char) : Bool :=
  blankRanges.any fun (first, last) => first ≤ c.toNat && c.toNat ≤ last

end SableSyntax
