/- SableSyntax/Syntax/TypeExpr
   digest: Names and types as they are written in a source text. -/

import SableSyntax.Text.Span

set_option autoImplicit false
set_option relaxedAutoImplicit false

namespace SableSyntax

structure Identifier where
  name : String
  span : Span
  deriving DecidableEq, Repr

instance : BEq Identifier where
  beq a b := a.name == b.name

inductive Primitive
  | i8 | i16 | i32 | i64 | u8 | u16 | u32 | u64 | f32 | f64 | bool | void
  deriving DecidableEq, Repr

namespace Primitive

def name : Primitive → String
  | .i8 => "i8"
  | .i16 => "i16"
  | .i32 => "i32"
  | .i64 => "i64"
  | .u8 => "u8"
  | .u16 => "u16"
  | .u32 => "u32"
  | .u64 => "u64"
  | .f32 => "f32"
  | .f64 => "f64"
  | .bool => "bool"
  | .void => "void"

def ofName? : String → Option Primitive
  | "i8" => some .i8
  | "i16" => some .i16
  | "i32" => some .i32
  | "i64" => some .i64
  | "u8" => some .u8
  | "u16" => some .u16
  | "u32" => some .u32
  | "u64" => some .u64
  | "f32" => some .f32
  | "f64" => some .f64
  | "bool" => some .bool
  | "void" => some .void
  | _ => none

theorem ofName?_name (primitive : Primitive) : ofName? primitive.name = some primitive := by
  cases primitive <;> rfl

end Primitive

inductive TypeName
  | primitive (builtin : Primitive) | named (name : String)
  deriving DecidableEq, Repr

namespace TypeName

/-- Built-in names always mean the built-in types. -/
def ofName (name : String) : TypeName :=
  match Primitive.ofName? name with
  | some builtin => .primitive builtin
  | none => .named name

def text : TypeName → String
  | .primitive builtin => builtin.name
  | .named name => name

end TypeName

structure TypeExpr where
  base : TypeName
  pointerDepth : Nat
  span : Span
  deriving DecidableEq, Repr

/-- Types agree by base and pointers; a built-in type and a type that is merely named like it
differ. -/
instance : BEq TypeExpr where
  beq a b := decide (a.base = b.base) && a.pointerDepth == b.pointerDepth

def TypeExpr.isPointer (type : TypeExpr) : Bool := 0 < type.pointerDepth

end SableSyntax
