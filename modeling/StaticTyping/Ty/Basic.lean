import StaticTyping.Ty.Primitive

/-! Types as the checker sees them, and the questions that need no second type to answer. -/

namespace StaticTyping

structure SymbolId where
  index : Nat
  deriving DecidableEq, Inhabited, Repr

/-- What a named type is called and which declaration it stands for. The built-in containers have no
declaration. -/
structure TypeHead where
  name : String
  symbol : Option SymbolId := none
  aliasable : Bool := false
  deriving DecidableEq, Inhabited, Repr

/-- The arguments of a named type are `none` where they were left out, which is not the same as an
empty list. -/
inductive Ty where
  | prim (p : Primitive)
  | named (head : TypeHead) (args : Option (List Ty))
  | union (members : List Ty)
  | tuple (elements : List Ty)
  | fn (params : List Ty) (result : Ty)
  | param (name : String)
  | error
  | unknown
  deriving Inhabited, Repr

namespace Ty

abbrev bool : Ty := .prim .bool
abbrev string : Ty := .prim .string
abbrev null : Ty := .prim .null
abbrev void : Ty := .prim .void

def arrayName : String := "Array"
def mapName : String := "Map"

def array (element : Ty) : Ty := .named ⟨arrayName, none, true⟩ (some [element])

def map (key value : Ty) : Ty := .named ⟨mapName, none, true⟩ (some [key, value])

/-- A declared type with its arguments left out. -/
def bare (name : String) (symbol : Option SymbolId) : Ty := .named ⟨name, symbol, false⟩ none

def primitive? : Ty → Option Primitive
  | .prim p => some p
  | _ => none

def head? : Ty → Option TypeHead
  | .named head _ => some head
  | _ => none

/-- Errors, unknowns and type parameters pass every check. -/
def isAbsorbing : Ty → Bool
  | .error | .unknown | .param _ => true
  | _ => false

def isError : Ty → Bool
  | .error => true
  | _ => false

def isNull : Ty → Bool
  | .prim .null => true
  | _ => false

def isString : Ty → Bool
  | .prim .string => true
  | _ => false

def isInteger : Ty → Bool
  | .prim p => p.isInteger
  | _ => false

def isNumeric : Ty → Bool
  | .prim p => p.isNumeric
  | _ => false

def isNamed (name : String) : Ty → Bool
  | .named head _ => head.name == name
  | _ => false

mutual

/-- Values of the type are shared by reference: arrays, maps and class instances. -/
def isAliasable : Ty → Bool
  | .named head _ => head.aliasable
  | .union members => allAliasable members
  | _ => false

def allAliasable : List Ty → Bool
  | [] => true
  | t :: rest => isAliasable t && allAliasable rest

end

mutual

/-- A condition may test a value of the type without comparing it. -/
def isTruthy : Ty → Bool
  | .prim p => p != .void
  | .named head _ => head.aliasable
  | .union members => allTruthy members
  | .tuple _ | .fn _ _ => false
  | .param _ | .error | .unknown => true

def allTruthy : List Ty → Bool
  | [] => true
  | t :: rest => isTruthy t && allTruthy rest

end

/-- The element type of an array, unknown where no argument says it. -/
def arrayElement? : Ty → Option Ty
  | .named head args =>
    if head.name == arrayName then some (((args.getD [])[0]?).getD .unknown) else none
  | _ => none

/-- The key and value types of a map, unknown where no argument says them. -/
def mapEntry? : Ty → Option (Ty × Ty)
  | .named head args =>
    if head.name == mapName then
      some (((args.getD [])[0]?).getD .unknown, ((args.getD [])[1]?).getD .unknown)
    else none
  | _ => none

/-- The result of a function type, unknown for every other type. -/
def resultOrUnknown : Ty → Ty
  | .fn _ result => result
  | _ => .unknown

end Ty

end StaticTyping
