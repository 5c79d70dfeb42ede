import StaticTyping.Check.Action
import StaticTyping.Diagnostic.Finding
import StaticTyping.Source.Program

/-! The rules of the language. A rule says what is done at one node of a program. It acts on the state,
and it asks for the parts of the node to be checked without saying how. -/

namespace StaticTyping

/-- What an expression is checked as. A value may come with a type that its surroundings hint at. -/
inductive Role where
  | value (hint : Option Ty)
  | target
  deriving Repr

/-- The names of aliases found to lie on a cycle. -/
abbrev Cyclic := List String

/-- What a rule may ask for: an action, the type of an expression, a statement, or the type of an
alias that is used while others, the latest first, are being expanded. -/
inductive Request : Type → Type 1 where
  | act {α : Type} (action : Action α) : Request α
  | expr (role : Role) (id : ExprId) : Request Ty
  | stmt (id : StmtId) : Request Unit
  | expand (active : List String) (id : SymbolId) (span : Span) (cyclic : Cyclic) :
      Request (Ty × Cyclic)

abbrev Rule := Steps Request

/-- The program that is checked and what the caller chose. -/
structure Env where
  program : Program
  options : Options

def Env.exprSpan (env : Env) (id : ExprId) : Span := (env.program.expr id).span

def Env.exprKind (env : Env) (id : ExprId) : ExprKind := (env.program.expr id).kind

namespace Rule

def perform {α : Type} (action : Action α) : Rule α := .lift (.act action)

/-- Asks for the type of an expression, which is recorded. -/
def visit (role : Role) (id : ExprId) : Rule Ty := .lift (.expr role id)

def visitStmt (id : StmtId) : Rule Unit := .lift (.stmt id)

/-- Asks for the type of an expression as a value, and makes no use of it. -/
def visitOnly (id : ExprId) : Rule Unit := do
  let _ ← visit (.value none) id

def symbol (id : SymbolId) : Rule Symbol := perform (.readSymbol id)

def lookupValue (name : String) : Rule (Option SymbolId) := perform (.lookupValue name)

def lookupType (name : String) : Rule (Option SymbolId) := perform (.lookupType name)

def record (id : ExprId) (ty : Ty) : Rule Unit := perform (.record id ty)

def report (finding : Finding) (span : Span) : Rule Unit :=
  perform (.report (finding.toDiagnostic span))

def reportIf (condition : Bool) (finding : Finding) (span : Span) : Rule Unit :=
  if condition then report finding span else pure ()

def reportAny (finding : Option Finding) (span : Span) : Rule Unit :=
  match finding with
  | some finding => report finding span
  | none => pure ()

/-- Does the work in a scope of its own. -/
def inScope {α : Type} (work : Rule α) : Rule α := do
  perform .pushScope
  let answer ← work
  perform .popScope
  return answer

/-- Gives a symbol its name as a value, or reports that the scope has that name already. -/
def declareValue (name : String) (id : SymbolId) (span : Span) : Rule Unit := do
  match ← perform (.declareValue name id) with
  | none => pure ()
  | some existing =>
    let other ← symbol existing
    report (.valueRedeclared name other.kind) span

def declareType (name : String) (id : SymbolId) (span : Span) : Rule Unit := do
  match ← perform (.declareType name id) with
  | none => pure ()
  | some existing =>
    let other ← symbol existing
    report (.typeRedeclared name other.kind) span

/-- Allocates a symbol and declares it as a value under its own name. -/
def introduce (symbol : Symbol) : Rule Unit := do
  let id ← perform (.allocate symbol)
  declareValue symbol.name id symbol.span

end Rule

/-- How the parts that rules ask for are checked. -/
structure Visits where
  expr : Role → ExprId → Check Ty := fun _ _ => do
    Steps.lift .abandon
    return .error
  stmt : StmtId → Check Unit := fun _ => Steps.lift .abandon
  expand : List String → SymbolId → Span → Cyclic → Check (Ty × Cyclic) := fun _ _ _ cyclic => do
    Steps.lift .abandon
    return (.error, cyclic)

def Visits.answer (visits : Visits) {α : Type} : Request α → Check α
  | .act action => .lift action
  | .expr role id => visits.expr role id
  | .stmt id => visits.stmt id
  | .expand active id span cyclic => visits.expand active id span cyclic

/-- The check that a rule amounts to once it is known how parts are checked. -/
def Rule.toCheck {α : Type} (visits : Visits) (rule : Rule α) : Check α :=
  rule.handle visits.answer

end StaticTyping
