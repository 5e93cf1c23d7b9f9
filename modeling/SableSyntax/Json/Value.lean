/- SableSyntax/Json/Value
   digest: JSON values and access to their parts. -/

import SableSyntax.Number.Decimal

set_option autoImplicit false
set_option relaxedAutoImplicit false

namespace SableSyntax

/-- A number of a JSON text: a whole number, or one written as a decimal fraction, with a sign of
its own so that zero can be negative. -/
inductive Numeral
  | integer (value : Int) | decimal (negative : Bool) (value : Decimal)
  deriving DecidableEq, Repr

/-- A JSON value; members keep their order. The text of a string may name one half of a pair of
units without the other. Such a string, and an object with such a name among its members, is
unpaired: it has its place in a value, but nothing can be read from it. -/
inductive Json
  | null | bool (value : Bool) | number (value : Numeral) | string (value : String)
  | array (items : List Json) | object (members : List (String × Json)) | unpaired
  deriving Repr

namespace Json

def atMostOne? {α : Type} : List α → Option (Option α)
  | [] => some none
  | [item] => some (some item)
  | _ => none

/-- The parts of a record, in the order of their names. An object may have them in any order and
leave some out, and other members are passed over, but no part may be there twice. An array has
all parts in order and nothing else. -/
def fields? (names : List String) : Json → Option (List (Option Json))
  | .object members =>
    names.mapM fun name => atMostOne? ((members.filter (·.1 == name)).map Prod.snd)
  | .array items => if items.length = names.length then some (items.map some) else none
  | _ => none

def string? : Json → Option String
  | .string value => some value
  | _ => none

def items? : Json → Option (List Json)
  | .array items => some items
  | _ => none

def nat? (limit : Nat) : Json → Option Nat
  | .number (.integer value) => if 0 ≤ value ∧ value < limit then some value.toNat else none
  | _ => none

/-- A choice among named cases: the name alone, or the one member of an object, which is the name
with what belongs to it. -/
def choice? : Json → Option (String × Option Json)
  | .string name => some (name, none)
  | .object [(name, content)] => some (name, some content)
  | _ => none

/-- A choice with nothing that belongs to it; saying so with a null is allowed. -/
def name? (json : Json) : Option String :=
  match json.choice? with
  | some (name, none) => some name
  | some (name, some .null) => some name
  | _ => none

end Json

end SableSyntax
