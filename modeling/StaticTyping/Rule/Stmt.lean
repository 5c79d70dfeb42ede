import StaticTyping.Rule.Narrowing
import StaticTyping.Rule.Pattern
import StaticTyping.Rule.Registration

/-! Statements. -/

namespace StaticTyping.Rule

/-- Checks a value against a type that is written down for it. -/
def checkAgainst (env : Env) (place : Place) (value : ExprId) (expected : Ty) : Rule Unit := do
  let found ← visit (.value (some expected)) value
  reportIf (!found.assignable expected) (.mismatch place expected found) (env.exprSpan value)

/-- The type of a variable: the written one, else that of its value, else unknown. -/
def bindingType (env : Env) (decl : LetDecl) : Rule Ty := do
  let written ← resolveOptional decl.type
  match decl.value, written with
  | some value, some declared =>
    checkAgainst env (.initializer decl.name.name) value declared
    return declared
  | some value, none => visit (.value none) value
  | none, _ =>
    reportIf decl.isConst (.constWithoutInitializer decl.name.name) decl.name.span
    return written.getD .unknown

def checkLet (env : Env) (decl : LetDecl) : Rule Unit := do
  let ty ← bindingType env decl
  introduce {
    name := decl.name.name, kind := .value, span := decl.name.span, ty := some ty
    isConst := decl.isConst, isMutable := !decl.isConst }

/-- Declares the receiver of a method. It can be changed in a class only. -/
def declareSelf (receiver : Option SymbolId) (span : Span) : Rule Unit :=
  match receiver with
  | none => pure ()
  | some id => do
    let owner ← symbol id
    introduce {
      name := "self", kind := .value, span, ty := some (selfType id owner)
      isParameter := true, isMutable := owner.kind == .classType }

def checkDefault (env : Env) (params : List ParamInfo) (decl : ParamDecl) : Rule Unit :=
  match decl.default with
  | none => pure ()
  | some value =>
    let expected := ((params.find? (·.name == decl.name)).map (·.ty)).getD .unknown
    checkAgainst env (.paramDefault decl.name) value expected

def declareParam (param : ParamInfo) : Rule Unit :=
  introduce {
    name := param.name, kind := .value, span := param.span, ty := some param.ty
    isParameter := true, isMutable := param.isMutable }

/-- The result that a function is held to, which is the written one. -/
def declaredResult (decl : FunctionDecl) (declared : Symbol) : Option Ty :=
  match decl.result, declared.ty with
  | some _, some (.fn _ result) => some result
  | _, _ => none

/-- Checks the body of a function and answers the types that it returns. -/
def checkBody (declared : Option Ty) (body : Block) : Rule (List Ty) := do
  perform (.enterFunction declared)
  body.statements.forM visitStmt
  perform .leaveFunction

/-- The result of a function is the union of what it returns, and `void` if it never returns. -/
def inferredResult (returns : List Ty) : Ty :=
  if returns.isEmpty then .void else .makeUnion returns

/-- Gives a function without a written result the type found for it. -/
def fillFunctionType (id : SymbolId) (receiver : Option SymbolId) (ty : Ty) : Rule Unit := do
  perform (.setType id ty)
  match receiver with
  | none => pure ()
  | some owner => perform (.retypeMethod owner id ty)

/-- Checks a function in a scope of its own. Defaults are checked before any parameter is declared. -/
def checkFunction (env : Env) (id : SymbolId) (decl : FunctionDecl) (receiver : Option SymbolId) :
    Rule Unit := do
  let (params, returns) ← inScope do
    declareTypeParams decl.typeParams
    declareSelf receiver decl.name.span
    let declared ← symbol id
    decl.params.forM (checkDefault env declared.params)
    declared.params.forM declareParam
    let current ← symbol id
    let returns ← checkBody (declaredResult decl current) decl.body
    return (declared.params, returns)
  if decl.result.isSome then pure ()
  else fillFunctionType id receiver (.fn (params.map (·.ty)) (inferredResult returns))

def checkMethod (env : Env) (owner : SymbolId) (id : StmtId) : Rule Unit :=
  match (env.program.stmt id).kind with
  | .function decl => do
    match ← perform (.declaredSymbol id) with
    | some method => checkFunction env method decl (some owner)
    | none => pure ()
  | _ => pure ()

def checkMethods (env : Env) (owner : SymbolId) (decl : RecordDecl) : Rule Unit :=
  inScope do
    declareTypeParams decl.typeParams
    decl.methods.forM (checkMethod env owner)

def acceptsCondition (policy : ConditionPolicy) (ty : Ty) : Bool :=
  match policy with
  | .any => true
  | .truthy => ty.isTruthy
  | .bool => ty.isAbsorbing || ty == .bool

def checkCondition (env : Env) (condition : ExprId) : Rule Unit := do
  let ty ← visit (.value (some .bool)) condition
  let policy := env.options.conditionPolicy
  reportIf (!acceptsCondition policy ty) (.conditionType policy ty) (env.exprSpan condition)

def checkBlock (block : Block) : Rule Unit :=
  inScope (block.statements.forM visitStmt)

/-- Checks a branch with the type that its condition gives to a name. -/
def checkBranch (narrowed : Option (String × Ty)) (block : Block) : Rule Unit :=
  inScope do
    match narrowed with
    | some (name, ty) => perform (.narrow name ty)
    | none => pure ()
    block.statements.forM visitStmt

/-- What the condition says of both branches is found before either is checked. -/
def checkIf (env : Env) (condition : ExprId) (consequent : Block) (alternative : Option Block) :
    Rule Unit := do
  checkCondition env condition
  let narrowing ← findNarrowing env.program condition
  checkBranch (narrowing.map fun n => (n.name, n.consequent)) consequent
  match alternative with
  | some block => checkBranch (narrowing.map fun n => (n.name, n.alternative)) block
  | none => pure ()

def checkFor (binding : Ident) (iterable : ExprId) (body : Block) : Rule Unit := do
  visitOnly iterable
  inScope do
    declareLocal binding.name .unknown binding.span
    body.statements.forM visitStmt

/-- The type of what is returned, and where it stands. A return without a value returns `void`. -/
def returnedType (env : Env) (value : Option ExprId) (hint : Option Ty) (span : Span) :
    Rule (Ty × Span) :=
  match value with
  | some value => do
    let ty ← visit (.value hint) value
    return (ty, env.exprSpan value)
  | none => return (.void, span)

def checkReturn (env : Env) (value : Option ExprId) (span : Span) : Rule Unit := do
  match ← perform .currentFunction with
  | none =>
    report .returnOutsideFunction span
    value.toList.forM visitOnly
  | some context =>
    let (ty, valueSpan) ← returnedType env value context.declared span
    match context.declared with
    | some declared =>
      reportIf (!ty.assignable declared) (.mismatch .returnValue declared ty) valueSpan
    | none => pure ()
    perform (.noteReturn ty)

def checkArm (env : Env) (subject : Ty) (matched : Option MatchedEnum) (arm : MatchArm) :
    Rule Coverage :=
  inScope do
    let coverage ← checkPattern env.options arm.pattern subject matched
    arm.body.statements.forM visitStmt
    return coverage

def checkMatch (env : Env) (subject : ExprId) (arms : List MatchArm) (span : Span) :
    Rule Unit := do
  let subjectType ← visit (.value none) subject
  let matched ← subjectEnum subjectType
  let coverage ← arms.mapM (checkArm env subjectType matched)
  checkExhaustive matched coverage span

def checkFunctionDecl (env : Env) (id : StmtId) (decl : FunctionDecl) : Rule Unit := do
  match ← ensureRegistered env.program id with
  | some function => checkFunction env function decl none
  | none => pure ()

def checkRecordDecl (env : Env) (id : StmtId) (decl : RecordDecl) : Rule Unit := do
  match ← ensureRegistered env.program id with
  | some owner => checkMethods env owner decl
  | none => pure ()

def statement (env : Env) (id : StmtId) : Rule Unit :=
  let node := env.program.stmt id
  match node.kind with
  | .bind decl => checkLet env decl
  | .function decl => checkFunctionDecl env id decl
  | .record _ decl => checkRecordDecl env id decl
  | .enum _ | .typeAlias _ => do
    let _ ← ensureRegistered env.program id
  | .branch condition consequent alternative => checkIf env condition consequent alternative
  | .whileLoop condition body => do
    checkCondition env condition
    checkBlock body
  | .forLoop binding iterable body => checkFor binding iterable body
  | .ret value => checkReturn env value node.span
  | .breakLoop | .continueLoop => pure ()
  | .cases subject arms => checkMatch env subject arms node.span
  | .expr value => visitOnly value
  | .block block => checkBlock block

/-- Declares a name that another module gives. It may not be assigned to, and nothing is known of its
type. -/
def declareImport (binding : Ident) : Rule Unit :=
  introduce {
    name := binding.name, kind := .value, span := binding.span, ty := some .unknown
    isConst := true }

/-- Imports first, then all declarations at top level, then every statement in order. -/
def program (env : Env) (imports : List Ident) : Rule Unit := do
  imports.forM declareImport
  registerDeclarations env.program env.program.items
  env.program.items.forM visitStmt

end StaticTyping.Rule
