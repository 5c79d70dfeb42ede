import StaticTyping.Check.State
import StaticTyping.Check.Steps

/-! What the checker does to its state, one action at a time. A check is work in such actions, so that
one can speak of each action that it performs and of each state that it passes through. -/

namespace StaticTyping

/-- An action that reads or changes the state, with the type of its answer. A declaration answers the
symbol that has the name already, if there is one. Abandoning does nothing. -/
inductive Action : Type → Type where
  | symbolCount : Action Nat
  | readSymbol (id : SymbolId) : Action Symbol
  | allocate (symbol : Symbol) : Action SymbolId
  | setType (id : SymbolId) (ty : Ty) : Action Unit
  | fillType (id : SymbolId) (ty : Ty) : Action Unit
  | setMembers (id : SymbolId) (members : List Member) : Action Unit
  | setVariants (id : SymbolId) (variants : List SymbolId) : Action Unit
  | retypeMethod (owner method : SymbolId) (ty : Ty) : Action Unit
  | lookupValue (name : String) : Action (Option SymbolId)
  | lookupType (name : String) : Action (Option SymbolId)
  | lookupValueType (name : String) : Action (Option Ty)
  | declareValue (name : String) (id : SymbolId) : Action (Option SymbolId)
  | declareType (name : String) (id : SymbolId) : Action (Option SymbolId)
  | pushScope : Action Unit
  | popScope : Action Unit
  | narrow (name : String) (ty : Ty) : Action Unit
  | clearNarrowing (name : String) : Action Unit
  | declaredSymbol (id : StmtId) : Action (Option SymbolId)
  | noteDeclaration (id : StmtId) (symbol : SymbolId) : Action Unit
  | enterFunction (declared : Option Ty) : Action Unit
  | leaveFunction : Action (List Ty)
  | currentFunction : Action (Option FunctionContext)
  | noteReturn (ty : Ty) : Action Unit
  | report (diagnostic : Diagnostic) : Action Unit
  | diagnosticCount : Action Nat
  | hoist (start middle : Nat) : Action Unit
  | record (id : ExprId) (ty : Ty) : Action Unit
  | abandon : Action Unit

/-- Gives the type to the first member that is this method. -/
def retypeFirst (method : SymbolId) (ty : Ty) : List Member → List Member
  | [] => []
  | m :: rest =>
    if m.method = some method then { m with ty } :: rest else m :: retypeFirst method ty rest

def noteInFirst (ty : Ty) : List FunctionContext → List FunctionContext
  | [] => []
  | context :: rest => { context with returns := context.returns ++ [ty] } :: rest

def State.modifySymbol (s : State) (id : SymbolId) (f : Symbol → Symbol) : State :=
  { s with symbols := s.symbols.modify id f }

/-- What an action answers and the state that it leaves. -/
def Action.step {α : Type} : Action α → State → α × State
  | .symbolCount, s => (s.symbols.size, s)
  | .readSymbol id, s => (s.symbols.get id, s)
  | .allocate symbol, s =>
    let (id, symbols) := s.symbols.alloc symbol
    (id, { s with symbols })
  | .setType id ty, s => ((), s.modifySymbol id fun symbol => { symbol with ty := some ty })
  | .fillType id ty, s =>
    ((), s.modifySymbol id fun symbol => { symbol with ty := some (symbol.ty.getD ty) })
  | .setMembers id members, s => ((), s.modifySymbol id fun symbol => { symbol with members })
  | .setVariants id variants, s => ((), s.modifySymbol id fun symbol => { symbol with variants })
  | .retypeMethod owner method ty, s =>
    ((), s.modifySymbol owner fun symbol =>
      { symbol with members := retypeFirst method ty symbol.members })
  | .lookupValue name, s => (s.scopes.lookupValue name, s)
  | .lookupType name, s => (s.scopes.lookupType name, s)
  | .lookupValueType name, s =>
    match s.scopes.valueType s.symbols name with
    | .ok ty => (ty, s)
    | .error _ => (some .unknown, s)
  | .declareValue name id, s =>
    match s.scopes.declareValue name id with
    | .ok scopes => (none, { s with scopes })
    | .error collision => (some collision.existing, s)
  | .declareType name id, s =>
    match s.scopes.declareType name id with
    | .ok scopes => (none, { s with scopes })
    | .error collision => (some collision.existing, s)
  | .pushScope, s => ((), { s with scopes := s.scopes.push })
  | .popScope, s => ((), { s with scopes := s.scopes.pop })
  | .narrow name ty, s => ((), { s with scopes := s.scopes.narrow name ty })
  | .clearNarrowing name, s => ((), { s with scopes := s.scopes.clearNarrowing name })
  | .declaredSymbol id, s => (s.declarations.lookup id, s)
  | .noteDeclaration id symbol, s =>
    ((), { s with declarations := (id, symbol) :: s.declarations })
  | .enterFunction declared, s => ((), { s with contexts := ⟨declared, []⟩ :: s.contexts })
  | .leaveFunction, s =>
    ((s.contexts.head?.map (·.returns)).getD [], { s with contexts := s.contexts.tail })
  | .currentFunction, s => (s.contexts.head?, s)
  | .noteReturn ty, s => ((), { s with contexts := noteInFirst ty s.contexts })
  | .report diagnostic, s => ((), { s with diagnostics := s.diagnostics.push diagnostic })
  | .diagnosticCount, s => (s.diagnostics.size, s)
  | .hoist start middle, s => ((), { s with diagnostics := s.diagnostics.hoist start middle })
  | .record id ty, s => ((), { s with types := s.types.record id ty })
  | .abandon, s => ((), s)

abbrev Check := Steps Action

namespace Check

variable {α β : Type}

/-- Performs a check from a state on, to its answer and the state that it leaves. -/
def run : Check α → State → α × State
  | .done answer, s => (answer, s)
  | .ask action next, s =>
    let (answer, after) := action.step s
    run (next answer) after

/-- The states that a check passes through, from the one it starts in to the one it leaves. -/
def states : Check α → State → List State
  | .done _, s => [s]
  | .ask action next, s => s :: states (next (action.step s).1) (action.step s).2

theorem run_bind (x : Check α) (f : α → Check β) (s : State) :
    run (x >>= f) s = run (f (run x s).1) (run x s).2 := by
  induction x generalizing s with
  | done _ => rfl
  | ask action next ih => exact ih _ _

end Check

end StaticTyping
