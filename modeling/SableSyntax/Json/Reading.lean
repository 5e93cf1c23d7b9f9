/- SableSyntax/Json/Reading
   digest: Reading a JSON text. -/

import SableSyntax.Json.Value

set_option autoImplicit false
set_option relaxedAutoImplicit false

namespace SableSyntax

def isJsonBlank (c : Char) : Bool :=
  c == ' ' || c == '\t' || c == '\n' || c == '\r'

def skipJsonBlanks (text : List Char) : List Char :=
  text.dropWhile isJsonBlank

def hexValue? (c : Char) : Option Nat :=
  if c.isDigit then some (c.toNat - '0'.toNat)
  else if 'a' ≤ c ∧ c ≤ 'f' then some (c.toNat - 'a'.toNat + 10)
  else if 'A' ≤ c ∧ c ≤ 'F' then some (c.toNat - 'A'.toNat + 10)
  else none

def hexQuad? (a b c d : Char) : Option Nat := do
  let a ← hexValue? a
  let b ← hexValue? b
  let c ← hexValue? c
  let d ← hexValue? d
  return ((a * 16 + b) * 16 + c) * 16 + d

def unescape? : Char → Option Char
  | '"' => some '"'
  | '\\' => some '\\'
  | '/' => some '/'
  | 'b' => some '\x08'
  | 'f' => some '\x0c'
  | 'n' => some '\n'
  | 'r' => some '\r'
  | 't' => some '\t'
  | _ => none

/-- The character for a unit of sixteen bits that is no half of a pair. -/
def ofUnit? (unit : Nat) : Option Char :=
  if 0xD800 ≤ unit ∧ unit < 0xE000 then none else some (Char.ofNat unit)

def ofUnitPair? (high low : Nat) : Option Char :=
  if 0xD800 ≤ high ∧ high < 0xDC00 ∧ 0xDC00 ≤ low ∧ low < 0xE000 then
    some (Char.ofNat (0x10000 + (high - 0xD800) * 0x400 + (low - 0xDC00)))
  else none

/-- A piece of a string as it is written: a character, or a unit of sixteen bits by its number. -/
inductive StringPiece
  | char (c : Char) | unit (value : Nat)
  deriving DecidableEq, Repr

def prependPiece (piece : Option StringPiece) (read : Option (List StringPiece × List Char)) :
    Option (List StringPiece × List Char) := do
  let piece ← piece
  let (pieces, rest) ← read
  return (piece :: pieces, rest)

/-- Reads the pieces of a string behind its opening quote. Control characters have to be escaped;
whether units go together in pairs does not matter yet. -/
def readPieces : List Char → Option (List StringPiece × List Char)
  | [] => none
  | '"' :: rest => some ([], rest)
  | '\\' :: 'u' :: a :: b :: c :: d :: rest =>
    prependPiece ((hexQuad? a b c d).map .unit) (readPieces rest)
  | '\\' :: c :: rest => prependPiece ((unescape? c).map .char) (readPieces rest)
  | c :: rest => prependPiece (if c.toNat < 0x20 then none else some (.char c)) (readPieces rest)

/-- The text that pieces make up, unless one of the units is half of a pair without the other. -/
def textOfPieces : List StringPiece → Option (List Char)
  | [] => some []
  | .char c :: pieces => (textOfPieces pieces).map (c :: ·)
  | .unit high :: .unit low :: pieces =>
    match ofUnitPair? high low with
    | some c => (textOfPieces pieces).map (c :: ·)
    | none => do
      let c ← ofUnit? high
      let text ← textOfPieces (.unit low :: pieces)
      return c :: text
  | .unit unit :: pieces => do
    let c ← ofUnit? unit
    let text ← textOfPieces pieces
    return c :: text

def stringOfPieces (pieces : List StringPiece) : Json :=
  match textOfPieces pieces with
  | some text => .string (String.ofList text)
  | none => .unpaired

def objectOfPieces (members : List (List StringPiece × Json)) : Json :=
  let named := members.mapM fun (pieces, value) =>
    (textOfPieces pieces).map fun text => (String.ofList text, value)
  match named with
  | some members => .object members
  | none => .unpaired

def readDigits (text : List Char) : Option (List Char × List Char) :=
  match text.takeWhile Char.isDigit with
  | [] => none
  | digits => some (digits, text.dropWhile Char.isDigit)

/-- The digits of a whole number, without a needless zero in front. -/
def readWhole (text : List Char) : Option (List Char × List Char) := do
  let (digits, rest) ← readDigits text
  if digits.head? = some '0' ∧ digits ≠ ['0'] then none else some (digits, rest)

def readFraction : List Char → Option (List Char × List Char)
  | '.' :: text => readDigits text
  | text => some ([], text)

def readPower : List Char → Option (Int × List Char)
  | '-' :: text => (readDigits text).map fun (digits, rest) => (-(digitsValue digits : Int), rest)
  | '+' :: text => (readDigits text).map fun (digits, rest) => ((digitsValue digits : Int), rest)
  | text => (readDigits text).map fun (digits, rest) => ((digitsValue digits : Int), rest)

def readExponent : List Char → Option (Option Int × List Char)
  | 'e' :: text | 'E' :: text => (readPower text).map fun (power, rest) => (some power, rest)
  | text => some (none, text)

/-- The number with a sign and the parts of its text. A zero with a sign is no whole number. -/
def numeralOf (negative : Bool) (whole fraction : List Char) (exponent : Option Int) : Numeral :=
  if fraction = [] ∧ exponent = none ∧ !(negative && digitsValue whole == 0) then
    .integer (if negative then -(digitsValue whole : Int) else digitsValue whole)
  else
    let d := Decimal.ofDigits whole fraction
    .decimal negative ⟨d.coefficient, d.exponent + exponent.getD 0⟩

def readUnsigned (negative : Bool) (text : List Char) : Option (Numeral × List Char) := do
  let (whole, text) ← readWhole text
  let (fraction, text) ← readFraction text
  let (exponent, text) ← readExponent text
  return (numeralOf negative whole fraction exponent, text)

def readNumeral : List Char → Option (Numeral × List Char)
  | '-' :: text => readUnsigned true text
  | text => readUnsigned false text

mutual

def readValue : Nat → List Char → Option (Json × List Char)
  | 0, _ => none
  | bound + 1, text =>
    match skipJsonBlanks text with
    | 'n' :: 'u' :: 'l' :: 'l' :: rest => some (.null, rest)
    | 't' :: 'r' :: 'u' :: 'e' :: rest => some (.bool true, rest)
    | 'f' :: 'a' :: 'l' :: 's' :: 'e' :: rest => some (.bool false, rest)
    | '"' :: rest => (readPieces rest).map fun (pieces, rest) => (stringOfPieces pieces, rest)
    | '[' :: rest =>
      match skipJsonBlanks rest with
      | ']' :: rest => some (.array [], rest)
      | rest => (readItems bound rest).map fun (items, rest) => (.array items, rest)
    | '{' :: rest =>
      match skipJsonBlanks rest with
      | '}' :: rest => some (.object [], rest)
      | rest => (readMembers bound rest).map fun (members, rest) => (objectOfPieces members, rest)
    | text => (readNumeral text).map fun (value, rest) => (.number value, rest)

def readItems : Nat → List Char → Option (List Json × List Char)
  | 0, _ => none
  | bound + 1, text => do
    let (item, rest) ← readValue bound text
    match skipJsonBlanks rest with
    | ',' :: rest =>
      let (items, rest) ← readItems bound rest
      return (item :: items, rest)
    | ']' :: rest => return ([item], rest)
    | _ => none

def readMembers : Nat → List Char → Option (List (List StringPiece × Json) × List Char)
  | 0, _ => none
  | bound + 1, text =>
    match skipJsonBlanks text with
    | '"' :: text => do
      let (name, rest) ← readPieces text
      match skipJsonBlanks rest with
      | ':' :: rest =>
        let (value, rest) ← readValue bound rest
        match skipJsonBlanks rest with
        | ',' :: rest =>
          let (members, rest) ← readMembers bound rest
          return ((name, value) :: members, rest)
        | '}' :: rest => return ([(name, value)], rest)
        | _ => none
      | _ => none
    | _ => none

end

/-- The value a whole text stands for. Every other step at least goes past a character. -/
def Json.read? (text : String) : Option Json :=
  match readValue (2 * text.length + 2) text.toList with
  | some (value, rest) => if skipJsonBlanks rest = [] then some value else none
  | none => none

end SableSyntax
