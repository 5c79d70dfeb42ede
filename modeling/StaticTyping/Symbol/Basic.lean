import StaticTyping.Source.TypeExpr
import StaticTyping.Ty.Basic

/-! What is known about a declared name. -/

namespace StaticTyping

inductive SymbolKind where
  | value | function | structType | enumType | classType | typeAlias | variant | typeParam
  deriving DecidableEq, Inhabited, Repr

def SymbolKind.describe : SymbolKind → String
  | value => "value"
  | function => "function"
  | structType => "struct"
  | enumType => "enum"
  | classType => "class"
  | typeAlias => "type alias"
  | variant => "enum variant"
  | typeParam => "type parameter"

/-- How a call may fill a parameter: by position or name, by name only, or with whatever positional
or named arguments are left over. -/
inductive ParamRole where
  | positional | namedOnly | variadic | kwVariadic
  deriving DecidableEq, Inhabited, Repr

structure ParamInfo where
  name : String
  ty : Ty
  role : ParamRole := .positional
  hasDefault : Bool := false
  isMutable : Bool := false
  span : Span := {}
  deriving Inhabited, Repr

namespace ParamInfo

def isOrdinary (param : ParamInfo) : Bool :=
  match param.role with
  | .positional | .namedOnly => true
  | .variadic | .kwVariadic => false

def isRequired (param : ParamInfo) : Bool := param.isOrdinary && !param.hasDefault

end ParamInfo

/-- A field, or a method with its own symbol. -/
structure Member where
  name : String
  ty : Ty
  method : Option SymbolId := none
  span : Span := {}
  deriving Inhabited, Repr

/-- The type of an alias, and of a function without a written result, is filled in later. -/
structure Symbol where
  name : String
  kind : SymbolKind
  span : Span := {}
  ty : Option Ty := none
  params : List ParamInfo := []
  isMutable : Bool := false
  isConst : Bool := false
  isPublic : Bool := false
  isParameter : Bool := false
  typeParams : List String := []
  members : List Member := []
  owner : Option SymbolId := none
  payload : List Ty := []
  variants : List SymbolId := []
  aliasTarget : Option TypeExpr := none
  deriving Inhabited, Repr

namespace Symbol

def member? (symbol : Symbol) (name : String) : Option Member :=
  symbol.members.find? (·.name == name)

def isRecord (symbol : Symbol) : Bool :=
  match symbol.kind with
  | .structType | .classType => true
  | _ => false

def tyOrUnknown (symbol : Symbol) : Ty := symbol.ty.getD .unknown

end Symbol

/-- Symbols by id, in the order in which they were allocated. -/
structure SymbolTable where
  symbols : Array Symbol := #[]
  deriving Inhabited, Repr

namespace SymbolTable

def size (table : SymbolTable) : Nat := table.symbols.size

def isEmpty (table : SymbolTable) : Bool := table.symbols.isEmpty

instance : Membership SymbolId SymbolTable := ⟨fun table id => id.index < table.size⟩

def get? (table : SymbolTable) (id : SymbolId) : Option Symbol := table.symbols[id.index]?

/-- The symbol of an id, and a nameless value for an id that was never allocated. -/
def get (table : SymbolTable) (id : SymbolId) : Symbol :=
  (table.get? id).getD { name := "", kind := .value }

def alloc (table : SymbolTable) (symbol : Symbol) : SymbolId × SymbolTable :=
  (⟨table.size⟩, ⟨table.symbols.push symbol⟩)

def modify (table : SymbolTable) (id : SymbolId) (f : Symbol → Symbol) : SymbolTable :=
  ⟨table.symbols.modify id.index f⟩

/-- Changes a symbol, if there is one of that id. -/
def modify? (table : SymbolTable) (id : SymbolId) (f : Symbol → Symbol) : Option SymbolTable :=
  (table.get? id).map fun _ => table.modify id f

end SymbolTable

end StaticTyping
