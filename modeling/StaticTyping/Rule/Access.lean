import StaticTyping.Rule.Basic
import StaticTyping.Source.Numeral
import StaticTyping.Ty.Assignable
import StaticTyping.Ty.Substitution

/-! Members and elements. -/

namespace StaticTyping

/-- The built-in members of arrays and maps. -/
def Ty.containerMember? (container : Ty) (name : String) : Option Ty :=
  match container.arrayElement? with
  | some element =>
    match name with
    | "len" => some (.fn [] (.prim .i64))
    | "push" => some (.fn [element] .void)
    | "pop" => some (.fn [] (.makeUnion [element, .null]))
    | "contains" => some (.fn [element] .bool)
    | _ => none
  | none =>
    match container.mapEntry? with
    | none => none
    | some (key, value) =>
      match name with
      | "len" => some (.fn [] (.prim .i64))
      | "get" => some (.fn [key] (.makeUnion [value, .null]))
      | "remove" => some (.fn [key] (.makeUnion [value, .null]))
      | "insert" => some (.fn [key, value] .void)
      | "contains" => some (.fn [key] .bool)
      | "keys" => some (.fn [] (.array key))
      | "values" => some (.fn [] (.array value))
      | _ => none

/-- What is known of a member: its type, with the substitution for the parameters of the record; or
that there is none; or nothing. -/
inductive MemberLookup where
  | found (ty : Ty) (method : Option SymbolId) (σ : Substitution)
  | missing (owner : MemberOwner)
  | untracked
  deriving Repr

/-- The members of a record whose arguments are given. -/
def Symbol.lookupMember (owner : Symbol) (args : Option (List Ty)) (name : String) :
    MemberLookup :=
  if !owner.isRecord then .untracked
  else
    let σ := Substitution.ofArgs owner.typeParams args
    match owner.member? name with
    | some m => .found (m.ty.substitute σ) m.method σ
    | none => .missing (.record owner.kind owner.name)

/-- The members of a type without a declaration. -/
def Ty.lookupBuiltIn (object : Ty) (name : String) : MemberLookup :=
  match object.containerMember? name with
  | some ty => .found ty none .empty
  | none =>
    if object.isNamed Ty.arrayName || object.isNamed Ty.mapName then .missing (.container object)
    else .untracked

namespace Rule

def lookupMember (env : Env) (object : Ty) (name : String) : Rule MemberLookup :=
  match object with
  | .named head args =>
    match head.symbol with
    | some id => do
      let owner ← symbol id
      return owner.lookupMember args name
    | none =>
      return if env.options.validateContainerMembers then object.lookupBuiltIn name else .untracked
  | _ => return .untracked

def memberType (env : Env) (object : ExprId) (property : Ident) : Rule Ty := do
  let objectType ← visit (.value none) object
  match ← lookupMember env objectType property.name with
  | .found ty _ _ => return ty
  | .missing owner =>
    report (.unknownMember owner property.name) property.span
    return .error
  | .untracked => return .unknown

/-- The element of a tuple at a literal position, which must be below 2 ^ 64. -/
def tupleElement? (elements : List Ty) (digits : String) : Option Ty :=
  ((Numeral.magnitude? digits).filter (· < Nat.pow 2 64)).bind (elements[·]?)

/-- The element of a type that is neither array nor map. Only that of a tuple at a literal position
is known. -/
def elementType (env : Env) (object : Ty) (index : ExprId) : Rule Ty :=
  match object, env.exprKind index with
  | .tuple elements, .literal (.int digits) =>
    match tupleElement? elements digits with
    | some ty => return ty
    | none => do
      report (.unknownElement object digits) (env.exprSpan index)
      return .error
  | _, _ => return if object.isError then .error else .unknown

def indexType (env : Env) (object index : ExprId) : Rule Ty := do
  let objectType ← visit (.value none) object
  match objectType.arrayElement?, objectType.mapEntry? with
  | some element, _ =>
    let found ← visit (.value none) index
    reportIf (!found.isAbsorbing && !found.isInteger) (.indexNotInteger found) (env.exprSpan index)
    return element
  | none, some (key, value) =>
    let found ← visit (.value (some key)) index
    reportIf (!found.assignable key) (.mismatch .mapKey key found) (env.exprSpan index)
    return value
  | none, none =>
    visitOnly index
    elementType env objectType index

end Rule

end StaticTyping
