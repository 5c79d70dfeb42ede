/-! The built-in scalar types. -/

namespace StaticTyping

inductive Primitive where
  | i8 | i16 | i32 | i64
  | u8 | u16 | u32 | u64
  | f32 | f64
  | bool | string | null | void
  deriving DecidableEq, Inhabited, Repr

/-- How an integer type lies in memory. -/
structure IntLayout where
  signed : Bool
  bits : Nat
  deriving DecidableEq, Repr

namespace Primitive

def all : List Primitive :=
  [i8, i16, i32, i64, u8, u16, u32, u64, f32, f64, bool, string, null, void]

def name : Primitive → String
  | i8 => "i8" | i16 => "i16" | i32 => "i32" | i64 => "i64"
  | u8 => "u8" | u16 => "u16" | u32 => "u32" | u64 => "u64"
  | f32 => "f32" | f64 => "f64"
  | bool => "bool" | string => "string" | null => "null" | void => "void"

def ofName? (text : String) : Option Primitive :=
  all.find? (·.name == text)

def intLayout? : Primitive → Option IntLayout
  | i8 => some ⟨true, 8⟩
  | i16 => some ⟨true, 16⟩
  | i32 => some ⟨true, 32⟩
  | i64 => some ⟨true, 64⟩
  | u8 => some ⟨false, 8⟩
  | u16 => some ⟨false, 16⟩
  | u32 => some ⟨false, 32⟩
  | u64 => some ⟨false, 64⟩
  | _ => none

def isInteger (p : Primitive) : Bool := p.intLayout?.isSome

def isFloat : Primitive → Bool
  | f32 | f64 => true
  | _ => false

def isNumeric (p : Primitive) : Bool := p.isInteger || p.isFloat

/-- The least and the greatest value of an integer type. -/
def bounds? (p : Primitive) : Option (Int × Nat) :=
  p.intLayout?.map fun layout =>
    if layout.signed then (-(Nat.pow 2 (layout.bits - 1) : Int), Nat.pow 2 (layout.bits - 1) - 1)
    else (0, Nat.pow 2 layout.bits - 1)

/-- Whether the integer of this magnitude and sign is a value of the type. Never for a type that is
not an integer type. -/
def fits (p : Primitive) (magnitude : Nat) (negative : Bool) : Bool :=
  match p.intLayout? with
  | none => false
  | some ⟨true, bits⟩ =>
    if negative then magnitude ≤ Nat.pow 2 (bits - 1) else magnitude < Nat.pow 2 (bits - 1)
  | some ⟨false, bits⟩ =>
    if negative then magnitude == 0 else magnitude ≤ Nat.pow 2 bits - 1

end Primitive

end StaticTyping
