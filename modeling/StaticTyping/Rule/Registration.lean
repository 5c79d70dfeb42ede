import StaticTyping.Rule.Resolution

/-! Symbols for declarations. Types are registered by name before any of their parts is resolved, so
that they may refer to each other in any order; functions follow. -/

namespace StaticTyping

def RecordKind.symbolKind : RecordKind → SymbolKind
  | .structType => .structType
  | .classType => .classType

/-- The symbol that a type declaration starts with. -/
def StmtKind.typeSymbol? : StmtKind → Option Symbol
  | .record kind decl => some {
      name := decl.name.name, kind := kind.symbolKind, span := decl.name.span
      isPublic := decl.isPublic, typeParams := decl.typeParams.map (·.name) }
  | .enum decl => some {
      name := decl.name.name, kind := .enumType, span := decl.name.span
      isPublic := decl.isPublic, typeParams := decl.typeParams.map (·.name) }
  | .typeAlias decl => some {
      name := decl.name.name, kind := .typeAlias, span := decl.name.span
      isPublic := decl.isPublic, aliasTarget := some decl.target }
  | _ => none

namespace Rule

def declareTypeParams (params : List Ident) : Rule Unit :=
  params.forM fun param => do
    let id ← perform (.allocate {
      name := param.name, kind := .typeParam, span := param.span, ty := some (.param param.name) })
    declareType param.name id param.span

/-- The parameters that a call sees: separators are gone, and a leftover parameter has the type of the
container that collects its arguments. `namedOnly` says whether a separator or the variadic parameter
came before. -/
def paramInfos : Bool → List ParamDecl → Rule (List ParamInfo)
  | _, [] => return []
  | namedOnly, decl :: rest => do
    let written ← resolveOptional decl.type
    let ty := written.getD .unknown
    let info : Ty → ParamRole → ParamInfo := fun ty role =>
      ⟨decl.name, ty, role, decl.default.isSome, decl.isMutable, decl.span⟩
    match decl.kind with
    | .separator => paramInfos true rest
    | .ordinary =>
      let others ← paramInfos namedOnly rest
      return info ty (if namedOnly then .namedOnly else .positional) :: others
    | .variadic =>
      let others ← paramInfos true rest
      return info (.array ty) .variadic :: others
    | .kwVariadic =>
      let others ← paramInfos namedOnly rest
      return info (.map .string ty) .kwVariadic :: others

/-- The parameters and the written result of a function, with its type parameters in scope. -/
def functionHeader (decl : FunctionDecl) : Rule (List ParamInfo × Option Ty) :=
  inScope do
    declareTypeParams decl.typeParams
    let params ← paramInfos false decl.params
    let result ← resolveOptional decl.result
    return (params, result)

/-- The symbol of a function or method, made when it is first asked for. It has a type from the start
only if its result is written. -/
def functionSymbol (id : StmtId) (decl : FunctionDecl) : Rule SymbolId := do
  match ← perform (.declaredSymbol id) with
  | some known => return known
  | none =>
    let (params, result) ← functionHeader decl
    let made ← perform (.allocate {
      name := decl.name.name, kind := .function, span := decl.name.span
      isPublic := decl.isPublic, typeParams := decl.typeParams.map (·.name), params
      ty := result.map (.fn (params.map (·.ty)) ·) })
    perform (.noteDeclaration id made)
    return made

def registerFunction (id : StmtId) (decl : FunctionDecl) : Rule SymbolId := do
  let made ← functionSymbol id decl
  declareValue decl.name.name made decl.name.span
  return made

def registerTypeName (p : Program) (id : StmtId) : Rule (Option SymbolId) :=
  match (p.stmt id).kind.typeSymbol? with
  | none => return none
  | some declared => do
    let made ← perform (.allocate declared)
    declareType declared.name made declared.span
    perform (.noteDeclaration id made)
    return some made

/-- Fields in order, each name once. `seen` holds the names so far. -/
def fieldMembers (owner : String) : List String → List FieldDecl → Rule (List Member)
  | _, [] => return []
  | seen, field :: rest => do
    let ty ← resolveType field.type
    if seen.contains field.name then
      report (.fieldRedeclared field.name owner) field.span
      fieldMembers owner seen rest
    else
      let others ← fieldMembers owner (field.name :: seen) rest
      return ⟨field.name, ty, none, field.span⟩ :: others

/-- Methods in order, each name once and none that a field has. -/
def methodMembers (p : Program) (owner : String) :
    List String → List StmtId → Rule (List Member)
  | _, [] => return []
  | seen, id :: rest =>
    match (p.stmt id).kind with
    | .function decl => do
      let method ← functionSymbol id decl
      if seen.contains decl.name.name then
        report (.memberRedeclared decl.name.name owner) decl.name.span
        methodMembers p owner seen rest
      else
        let declared ← symbol method
        let others ← methodMembers p owner (decl.name.name :: seen) rest
        return ⟨decl.name.name, declared.tyOrUnknown, some method, decl.name.span⟩ :: others
    | _ => methodMembers p owner seen rest

def populateRecord (p : Program) (id : SymbolId) (decl : RecordDecl) : Rule Unit := do
  let owner ← symbol id
  let members ← inScope do
    declareTypeParams decl.typeParams
    let fields ← fieldMembers owner.name [] decl.fields
    let methods ← methodMembers p owner.name (fields.map (·.name)) decl.methods
    return fields ++ methods
  perform (.setMembers id members)

/-- A variant with a payload is a function to its enum, one without is a value of it. -/
def variantSymbol (enumId : SymbolId) (decl : EnumDecl) (variant : VariantDecl)
    (payload : List Ty) : Symbol :=
  let enumType := Ty.bare decl.name.name (some enumId)
  { name := variant.name, kind := .variant, span := variant.span
    ty := some (if payload.isEmpty then enumType else .fn payload enumType)
    isPublic := decl.isPublic, owner := some enumId, payload }

/-- All payloads are resolved before the first variant is declared. -/
def populateEnum (id : SymbolId) (decl : EnumDecl) : Rule Unit := do
  let payloads ← inScope do
    declareTypeParams decl.typeParams
    decl.variants.mapM fun variant => variant.payload.mapM resolveType
  let variants ← (decl.variants.zip payloads).mapM fun (variant, payload) => do
    let made ← perform (.allocate (variantSymbol id decl variant payload))
    declareValue variant.name made variant.span
    return made
  perform (.setVariants id variants)

/-- Resolves the parts of a type declaration whose name is registered. -/
def populateType (p : Program) (id : StmtId) (declared : SymbolId) : Rule Unit :=
  match (p.stmt id).kind with
  | .record _ decl => populateRecord p declared decl
  | .enum decl => populateEnum declared decl
  | .typeAlias _ => expandDeclared declared
  | _ => pure ()

def registerTypeNames (p : Program) : List StmtId → Rule (List (StmtId × SymbolId))
  | [] => return []
  | id :: rest => do
    let made ← registerTypeName p id
    let others ← registerTypeNames p rest
    return made.toList.map (id, ·) ++ others

def registerIfFunction (p : Program) (id : StmtId) : Rule Unit :=
  match (p.stmt id).kind with
  | .function decl => do
    let _ ← registerFunction id decl
  | _ => pure ()

def registerDeclarations (p : Program) (items : List StmtId) : Rule Unit := do
  let types ← registerTypeNames p items
  types.forM fun (id, declared) => populateType p id declared
  items.forM (registerIfFunction p)

/-- The symbol of a declaration, registered now if it was met in a block. -/
def ensureRegistered (p : Program) (id : StmtId) : Rule (Option SymbolId) := do
  match ← perform (.declaredSymbol id) with
  | some known => return some known
  | none =>
    match (p.stmt id).kind with
    | .function decl =>
      let made ← registerFunction id decl
      return some made
    | _ =>
      match ← registerTypeName p id with
      | none => return none
      | some made =>
        populateType p id made
        return some made

/-- The type of the receiver in the methods of a record. -/
def selfType (id : SymbolId) (owner : Symbol) : Ty :=
  .named ⟨owner.name, some id, owner.kind == .classType⟩
    (if owner.typeParams.isEmpty then none else some (owner.typeParams.map .param))

end Rule

end StaticTyping
