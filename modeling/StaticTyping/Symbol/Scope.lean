import StaticTyping.Symbol.Basic

/-! Nested scopes. Values and types have names of their own, and a scope may also narrow the type of
a value that it or an outer scope declares. -/

namespace StaticTyping

/-- The names of one scope. No name is declared twice. -/
structure Frame where
  values : List (String × SymbolId) := []
  types : List (String × SymbolId) := []
  narrowed : List (String × Ty) := []
  deriving Inhabited, Repr

/-- Where the type of a value comes from. -/
inductive Tracked where
  | narrowed (ty : Ty)
  | declared (symbol : SymbolId)
  deriving Repr

namespace Frame

def declares (frame : Frame) (name : String) : Bool := (frame.values.lookup name).isSome

def forget (frame : Frame) (name : String) : Frame :=
  { frame with narrowed := frame.narrowed.filter (·.1 != name) }

def narrow (frame : Frame) (name : String) (ty : Ty) : Frame :=
  { frame with narrowed := (name, ty) :: (frame.forget name).narrowed }

/-- In one scope a narrowed type goes before the declared one. -/
def tracked? (frame : Frame) (name : String) : Option Tracked :=
  match frame.narrowed.lookup name with
  | some ty => some (.narrowed ty)
  | none => (frame.values.lookup name).map .declared

end Frame

/-- A name that the scope has already, with the symbol that keeps it. -/
structure Redeclaration where
  existing : SymbolId
  deriving DecidableEq, Repr

structure UnknownSymbol where
  id : SymbolId
  deriving DecidableEq, Repr

/-- The innermost scope and those around it, from the inside out. The outermost one is the root. -/
structure ScopeStack where
  inner : Frame := {}
  outer : List Frame := []
  deriving Inhabited, Repr

namespace ScopeStack

def frames (s : ScopeStack) : List Frame := s.inner :: s.outer

def depth (s : ScopeStack) : Nat := s.frames.length

/-- The number of the innermost scope, counting from the root. -/
def current (s : ScopeStack) : Nat := s.outer.length

def push (s : ScopeStack) : ScopeStack := ⟨{}, s.frames⟩

/-- Drops the innermost scope, unless it is the root. -/
def pop (s : ScopeStack) : ScopeStack :=
  match s.outer with
  | [] => s
  | frame :: rest => ⟨frame, rest⟩

/-- The first declaration of a name in a scope stays. A new one ends the narrowing of its name in
that scope. -/
def declareValue (s : ScopeStack) (name : String) (id : SymbolId) :
    Except Redeclaration ScopeStack :=
  match s.inner.values.lookup name with
  | some existing => .error ⟨existing⟩
  | none =>
    .ok { s with inner := { s.inner.forget name with values := (name, id) :: s.inner.values } }

def declareType (s : ScopeStack) (name : String) (id : SymbolId) :
    Except Redeclaration ScopeStack :=
  match s.inner.types.lookup name with
  | some existing => .error ⟨existing⟩
  | none => .ok { s with inner := { s.inner with types := (name, id) :: s.inner.types } }

def lookupValue (s : ScopeStack) (name : String) : Option SymbolId :=
  s.frames.findSome? (·.values.lookup name)

def lookupType (s : ScopeStack) (name : String) : Option SymbolId :=
  s.frames.findSome? (·.types.lookup name)

def tracked? (s : ScopeStack) (name : String) : Option Tracked :=
  s.frames.findSome? (·.tracked? name)

def isNarrowed (s : ScopeStack) (name : String) : Bool :=
  match s.tracked? name with
  | some (.narrowed _) => true
  | _ => false

/-- The type of a value: narrowed or declared, whichever is further in. A declared value whose type
is still to be filled in is of unknown type. -/
def valueType (s : ScopeStack) (table : SymbolTable) (name : String) :
    Except UnknownSymbol (Option Ty) :=
  match s.tracked? name with
  | none => .ok none
  | some (.narrowed ty) => .ok (some ty)
  | some (.declared id) =>
    match table.get? id with
    | some symbol => .ok (some symbol.tyOrUnknown)
    | none => .error ⟨id⟩

def narrow (s : ScopeStack) (name : String) (ty : Ty) : ScopeStack :=
  { s with inner := s.inner.narrow name ty }

def clearFrames (name : String) : List Frame → List Frame
  | [] => []
  | frame :: rest =>
    frame.forget name :: if frame.declares name then rest else clearFrames name rest

/-- Ends the narrowing of a name from the innermost scope out to the one that declares it. -/
def clearNarrowing (s : ScopeStack) (name : String) : ScopeStack :=
  ⟨s.inner.forget name, if s.inner.declares name then s.outer else clearFrames name s.outer⟩

end ScopeStack

end StaticTyping
