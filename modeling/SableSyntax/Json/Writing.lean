/- SableSyntax/Json/Writing
   digest: The JSON text of a value, without blanks. -/

import SableSyntax.Json.Value

set_option autoImplicit false
set_option relaxedAutoImplicit false

namespace SableSyntax

/-- The last two digits of a code point below 256, in base sixteen. -/
def hexPair (code : Nat) : List Char :=
  [Nat.digitChar (code / 16), Nat.digitChar (code % 16)]

/-- Quotes, backslashes and control characters are escaped, everything else is written as it
is. -/
def jsonEscape (c : Char) : List Char :=
  match c with
  | '"' => ['\\', '"']
  | '\\' => ['\\', '\\']
  | '\x08' => ['\\', 'b']
  | '\t' => ['\\', 't']
  | '\n' => ['\\', 'n']
  | '\x0c' => ['\\', 'f']
  | '\r' => ['\\', 'r']
  | c => if c.toNat < 0x20 then ['\\', 'u', '0', '0'] ++ hexPair c.toNat else [c]

def jsonString (text : String) : List Char :=
  '"' :: text.toList.flatMap jsonEscape ++ ['"']

/-- Whole numbers are written in digits; a fraction always shows a point or a power of ten. -/
def Numeral.text : Numeral → List Char
  | .integer value => (toString value).toList
  | .decimal negative value => (if negative then ['-'] else []) ++ value.compact

namespace Json

mutual

/-- The text of a value. One half of a pair stands for all that is unpaired. -/
def text : Json → List Char
  | .null => ['n', 'u', 'l', 'l']
  | .bool true => ['t', 'r', 'u', 'e']
  | .bool false => ['f', 'a', 'l', 's', 'e']
  | .number value => value.text
  | .string value => jsonString value
  | .unpaired => ['"', '\\', 'u', 'd', '8', '0', '0', '"']
  | .array [] => ['[', ']']
  | .array (item :: items) => '[' :: item.text ++ textOfItems items
  | .object [] => ['{', '}']
  | .object ((name, value) :: members) =>
    '{' :: jsonString name ++ ':' :: value.text ++ textOfMembers members

def textOfItems : List Json → List Char
  | [] => [']']
  | item :: items => ',' :: item.text ++ textOfItems items

def textOfMembers : List (String × Json) → List Char
  | [] => ['}']
  | (name, value) :: members =>
    ',' :: jsonString name ++ ':' :: value.text ++ textOfMembers members

end

def write (json : Json) : String := String.ofList json.text

end Json

end SableSyntax
