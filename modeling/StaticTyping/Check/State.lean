import StaticTyping.Diagnostic.Basic
import StaticTyping.Source.Stmt
import StaticTyping.Symbol.Scope

/-! What the checker knows while it runs. -/

namespace StaticTyping

/-- The types of expressions, as recordings in order, the latest first. -/
structure TypeTable where
  log : List (ExprId × Ty) := []
  deriving Inhabited, Repr

namespace TypeTable

def record (table : TypeTable) (id : ExprId) (ty : Ty) : TypeTable := ⟨(id, ty) :: table.log⟩

/-- The latest recording counts. -/
def get? (table : TypeTable) (id : ExprId) : Option Ty := table.log.lookup id

/-- Keeps the first entry of each run with the same id. -/
def firstOfRuns : List (ExprId × Ty) → List (ExprId × Ty)
  | [] => []
  | [entry] => [entry]
  | first :: second :: rest =>
    if first.1 = second.1 then firstOfRuns (first :: rest)
    else first :: firstOfRuns (second :: rest)
termination_by entries => entries.length

/-- One entry for each recorded expression, by ascending id. -/
def toList (table : TypeTable) : List (ExprId × Ty) :=
  firstOfRuns (table.log.mergeSort fun a b => a.1.index ≤ b.1.index)

def size (table : TypeTable) : Nat := table.toList.length

def isEmpty (table : TypeTable) : Bool := table.log.isEmpty

end TypeTable

/-- The function whose body is being checked: its written result, and the types returned so far. -/
structure FunctionContext where
  declared : Option Ty
  returns : List Ty := []
  deriving Inhabited, Repr

/-- The innermost function comes first. -/
structure State where
  symbols : SymbolTable := {}
  scopes : ScopeStack := {}
  diagnostics : Diagnostics := {}
  types : TypeTable := {}
  contexts : List FunctionContext := []
  declarations : List (StmtId × SymbolId) := []
  deriving Inhabited, Repr

end StaticTyping
