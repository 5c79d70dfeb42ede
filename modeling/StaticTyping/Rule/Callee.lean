import StaticTyping.Rule.Access

/-! What is called, and what is known of its parameters. -/

namespace StaticTyping

/-- Parameters with names: those of functions, methods, variants and class constructors. -/
structure Signature where
  callee : String
  params : List ParamInfo
  deriving Inhabited, Repr

namespace Signature

/-- The parameters that a positional argument may fill, in order. -/
def positional (sig : Signature) : List ParamInfo := sig.params.filter (·.role == .positional)

def variadic? (sig : Signature) : Option ParamInfo := sig.params.find? (·.role == .variadic)

def kwVariadic? (sig : Signature) : Option ParamInfo := sig.params.find? (·.role == .kwVariadic)

def ordinary? (sig : Signature) (name : String) : Option ParamInfo :=
  sig.params.find? fun param => param.isOrdinary && param.name == name

end Signature

/-- What is known of the thing that is called: a signature, a function type without names, or
nothing. -/
inductive Callee where
  | bound (sig : Signature) (result : Ty)
  | unnamed (params : List Ty) (result : Ty)
  | untracked (result : Ty)
  deriving Repr

/-- The payload of a variant as parameters, named by their positions. -/
def Symbol.payloadParams (variant : Symbol) : List ParamInfo :=
  variant.payload.zipIdx.map fun (ty, position) =>
    { name := toString position, ty, span := variant.span }

namespace Rule

/-- What a value of a type can be called with. -/
def calleeOfType (ty : Ty) (span : Span) : Rule Callee :=
  match ty with
  | .fn params result => return .unnamed params result
  | .error => return .untracked .error
  | _ =>
    if ty.isAbsorbing then return .untracked .unknown
    else do
      report (.notCallable ty) span
      return .untracked .error

def functionCallee (id : ExprId) (declared : Symbol) : Rule Callee := do
  let ty := declared.tyOrUnknown
  record id ty
  return .bound ⟨declared.name, declared.params⟩ ty.resultOrUnknown

/-- A method of a record whose type parameters are given by `σ`. -/
def methodCallee (id : ExprId) (method : SymbolId) (σ : Substitution) : Rule Callee := do
  let declared ← symbol method
  let ty := (declared.ty.map (·.substitute σ)).getD .unknown
  record id ty
  let params := declared.params.map fun param => { param with ty := param.ty.substitute σ }
  return .bound ⟨declared.name, params⟩ ty.resultOrUnknown

def ownerName (variant : Symbol) : Rule String :=
  match variant.owner with
  | none => return ""
  | some id => do
    let owner ← symbol id
    return owner.name

/-- A variant gives its enum with the arguments left out, so that it fits any instance. -/
def variantCallee (id : ExprId) (declared : Symbol) : Rule Callee := do
  let owner ← ownerName declared
  record id declared.tyOrUnknown
  return .bound ⟨declared.name, declared.payloadParams⟩ (.bare owner declared.owner)

def constructorParams (declared : Symbol) : Rule (List ParamInfo) :=
  match (declared.member? "init").bind (·.method) with
  | none => return []
  | some method => do
    let constructor ← symbol method
    return constructor.params

/-- A class is called to make an instance, with the parameters of its method `init` if it has one.
No other type can be called. -/
def constructorCallee (id : ExprId) (type : SymbolId) (span : Span) : Rule Callee := do
  let declared ← symbol type
  match declared.kind with
  | .classType =>
    let result : Ty := .named ⟨declared.name, some type, true⟩ none
    let params ← constructorParams declared
    record id (.fn (params.map (·.ty)) result)
    return .bound ⟨declared.name, params⟩ result
  | .structType =>
    report (.structCalled declared.name) span
    record id .error
    return .untracked .error
  | kind =>
    report (.typeCalled kind declared.name) span
    record id .error
    return .untracked .error

def valueCallee (env : Env) (id : ExprId) : Rule Callee := do
  let ty ← visit (.value none) id
  calleeOfType ty (env.exprSpan id)

/-- Names of functions, variants and types are called for what they declare. A value hides a type of
the same name. -/
def nameCallee (env : Env) (id : ExprId) (name : String) : Rule Callee := do
  match ← lookupValue name with
  | some valueId =>
    let declared ← symbol valueId
    match declared.kind with
    | .function => functionCallee id declared
    | .variant => variantCallee id declared
    | _ => valueCallee env id
  | none =>
    match ← lookupType name with
    | some type => constructorCallee id type (env.exprSpan id)
    | none => valueCallee env id

def memberCallee (env : Env) (id object : ExprId) (property : Ident) : Rule Callee := do
  let objectType ← visit (.value none) object
  match ← lookupMember env objectType property.name with
  | .found _ (some method) σ => methodCallee id method σ
  | .found ty none _ =>
    record id ty
    calleeOfType ty (env.exprSpan id)
  | .missing owner =>
    report (.unknownMember owner property.name) property.span
    record id .error
    return .untracked .error
  | .untracked =>
    record id .unknown
    return .untracked .unknown

/-- Finds what is called, and records its type. -/
def resolveCallee (env : Env) (id : ExprId) : Rule Callee :=
  match env.exprKind id with
  | .name name => nameCallee env id name
  | .member object property => memberCallee env id object property
  | _ => valueCallee env id

end Rule

end StaticTyping
