/- SableSyntax/Text/Location
   digest: Places in a source text, counted in bytes, lines and columns. -/

set_option autoImplicit false
set_option relaxedAutoImplicit false

namespace SableSyntax

def byteLength : List Char → Nat
  | [] => 0
  | c :: text => c.utf8Size + byteLength text

@[simp] theorem byteLength_nil : byteLength [] = 0 := rfl

@[simp] theorem byteLength_cons (c : Char) (text : List Char) :
    byteLength (c :: text) = c.utf8Size + byteLength text := rfl

@[simp] theorem byteLength_append (left right : List Char) :
    byteLength (left ++ right) = byteLength left + byteLength right := by
  induction left with
  | nil => simp
  | cons c left ih => simp [ih, Nat.add_assoc]

theorem byteLength_toList (text : String) : byteLength text.toList = text.utf8ByteSize := by
  have encoded (chars : List Char) : byteLength chars = chars.utf8Encode.size := by
    induction chars with
    | nil => rfl
    | cons c chars ih =>
      have first : [c].utf8Encode.size = c.utf8Size := by simp [List.utf8Encode]
      rw [List.utf8Encode_cons, ByteArray.size_append, first, byteLength_cons, ih]
  rw [encoded, String.utf8Encode_toList]
  rfl

/-- A place in a text: the bytes before it, and its line and column counted from one. -/
structure Location where
  offset : Nat
  line : Nat
  column : Nat
  deriving DecidableEq, Repr

namespace Location

def start : Location := ⟨0, 1, 1⟩

instance : Inhabited Location := ⟨start⟩

/-- The place behind one more character: only a line feed opens a new line. -/
def advance (place : Location) (c : Char) : Location :=
  if c = '\n' then ⟨place.offset + c.utf8Size, place.line + 1, 1⟩
  else ⟨place.offset + c.utf8Size, place.line, place.column + 1⟩

def after (place : Location) (text : List Char) : Location :=
  text.foldl advance place

@[simp] theorem after_nil (place : Location) : place.after [] = place := rfl

@[simp] theorem after_cons (place : Location) (c : Char) (text : List Char) :
    place.after (c :: text) = (place.advance c).after text := rfl

theorem after_append (place : Location) (left right : List Char) :
    place.after (left ++ right) = (place.after left).after right :=
  List.foldl_append

@[simp] theorem offset_advance (place : Location) (c : Char) :
    (place.advance c).offset = place.offset + c.utf8Size := by
  unfold advance
  split <;> rfl

@[simp] theorem offset_after (place : Location) (text : List Char) :
    (place.after text).offset = place.offset + byteLength text := by
  induction text generalizing place with
  | nil => rfl
  | cons c text ih => simp [ih, Nat.add_assoc]

instance : ToString Location where
  toString place := toString place.line ++ ":" ++ toString place.column

end Location

end SableSyntax
