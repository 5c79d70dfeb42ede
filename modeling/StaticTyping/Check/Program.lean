import StaticTyping.Rule.Expr
import StaticTyping.Rule.Stmt

/-! Checking a program by its rules. The parts of a node are checked by the rules again, to a depth
that no program without a cycle goes beyond. -/

namespace StaticTyping

namespace Check

/-- The type of an alias, expanded to a depth. -/
def expandWithin : Nat → List String → SymbolId → Span → Cyclic → Check (Ty × Cyclic)
  | 0, _, _, _, cyclic => do
    Steps.lift .abandon
    return (.error, cyclic)
  | depth + 1, active, id, span, cyclic =>
    (Rule.expandAlias active id span cyclic).toCheck { expand := expandWithin depth }

/-- The type of an alias. Each expansion inside another is of another name, so that there are never
more of them than symbols. -/
def expand (active : List String) (id : SymbolId) (span : Span) (cyclic : Cyclic) :
    Check (Ty × Cyclic) := do
  let count ← Steps.lift .symbolCount
  expandWithin (count + 1) active id span cyclic

def exprWithin (env : Env) : Nat → Role → ExprId → Check Ty
  | 0, _, _ => do
    Steps.lift .abandon
    return .error
  | depth + 1, role, id =>
    (Rule.expression env role id).toCheck { expr := exprWithin env depth, expand }

/-- Checks an expression and records its type. -/
def expr (env : Env) (role : Role) (id : ExprId) : Check Ty :=
  exprWithin env env.program.exprDepth role id

def stmtWithin (env : Env) : Nat → StmtId → Check Unit
  | 0, _ => Steps.lift .abandon
  | depth + 1, id =>
    (Rule.statement env id).toCheck { expr := expr env, stmt := stmtWithin env depth, expand }

def stmt (env : Env) (id : StmtId) : Check Unit := stmtWithin env env.program.stmtDepth id

def program (env : Env) (imports : List Ident) : Check Unit :=
  (Rule.program env imports).toCheck { expr := expr env, stmt := stmt env, expand }

end Check

/-- What a check finds: its diagnostics and the types of the expressions. -/
structure Report where
  diagnostics : Diagnostics
  types : TypeTable
  deriving Repr

def check (p : Program) (options : Options) (imports : List Ident) : Report :=
  let final := ((Check.program ⟨p, options⟩ imports).run {}).2
  ⟨final.diagnostics, final.types⟩

end StaticTyping
