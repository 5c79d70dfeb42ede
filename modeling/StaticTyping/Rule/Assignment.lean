import StaticTyping.Rule.Operator

/-! Assignments and what may be assigned to. -/

namespace StaticTyping

/-- Why the value behind a symbol may not be changed. -/
def Symbol.mutationFinding? (symbol : Symbol) : Option Finding :=
  if symbol.isConst then some (.constAssignment symbol.name)
  else if symbol.isParameter && !symbol.isMutable then some (.parameterAssignment symbol.name)
  else none

/-- Why a name may not be assigned to. Functions and variants never may. -/
def Symbol.assignmentFinding? (symbol : Symbol) (name : String) : Option Finding :=
  match symbol.kind with
  | .function | .variant => some (.symbolAssignment symbol.kind name)
  | _ => symbol.mutationFinding?

namespace Rule

/-- A name as a target has its declared type, whatever it is narrowed to. -/
def nameTarget (name : String) (span : Span) : Rule Ty := do
  match ← lookupValue name with
  | none =>
    report (.unknownIdentifier name) span
    return .error
  | some id =>
    let declared ← symbol id
    reportAny (declared.assignmentFinding? name) span
    return declared.tyOrUnknown

/-- A write through a path changes the value that the path starts from. -/
def checkRoot (env : Env) (target : ExprId) (span : Span) : Rule Unit :=
  match env.program.rootName? target with
  | none => pure ()
  | some root => do
    match ← lookupValue root with
    | none => pure ()
    | some id =>
      let declared ← symbol id
      reportAny declared.mutationFinding? span

/-- The type of an assignment target. `asValue` finds its type as a value. -/
def targetType (env : Env) (target : ExprId) (asValue : Rule Ty) : Rule Ty :=
  let span := env.exprSpan target
  match env.exprKind target with
  | .name name => nameTarget name span
  | .member _ _ | .index _ _ => do
    let ty ← asValue
    checkRoot env target span
    return ty
  | .group inner => visit .target inner
  | _ => do
    let ty ← asValue
    report .invalidAssignmentTarget span
    return ty

/-- A write to a name ends its narrowing. -/
def endNarrowing (env : Env) (target : ExprId) : Rule Unit :=
  match env.exprKind target with
  | .name name => perform (.clearNarrowing name)
  | _ => pure ()

def assignedType (op : Option BinaryOp) (target value : Ty) (span : Span) : Rule Ty :=
  match op with
  | some op => arithmeticType op target value span
  | none => return value

def assignmentType (env : Env) (op : Option BinaryOp) (target value : ExprId) (span : Span) :
    Rule Ty := do
  let declared ← visit .target target
  let valueType ← visit (.value (some declared)) value
  let assigned ← assignedType op declared valueType span
  reportIf (!assigned.assignable declared) (.mismatch .assignment declared assigned)
    (env.exprSpan value)
  endNarrowing env target
  return declared

end Rule

end StaticTyping
