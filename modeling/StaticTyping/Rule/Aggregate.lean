import StaticTyping.Rule.Resolution
import StaticTyping.Ty.Assignable

/-! Records, arrays, maps and tuples written out, and casts. -/

namespace StaticTyping.Rule

/-- Checks the given fields against the declared ones and answers the names given. -/
def checkFields (env : Env) (recordName : String) (declared : List Member) :
    List String → List FieldInit → Rule (List String)
  | seen, [] => return seen
  | seen, field :: rest =>
    match declared.find? (·.name == field.name.name) with
    | none => do
      report (.unknownField recordName field.name.name) field.name.span
      visitOnly field.value
      checkFields env recordName declared seen rest
    | some m =>
      if seen.contains m.name then do
        report (.fieldRepeated m.name) field.name.span
        visitOnly field.value
        checkFields env recordName declared seen rest
      else do
        let found ← visit (.value (some m.ty)) field.value
        reportIf (!found.assignable m.ty) (.mismatch (.field m.name) m.ty found)
          (env.exprSpan field.value)
        checkFields env recordName declared (m.name :: seen) rest

def reportMissingFields (name : Ident) (declared : List Member) (seen : List String) : Rule Unit :=
  declared.forM fun m =>
    reportIf (!seen.contains m.name) (.missingField m.name name.name) name.span

def visitFields (fields : List FieldInit) : Rule Unit :=
  fields.forM fun field => visitOnly field.value

def recordType (env : Env) (name : Ident) (fields : List FieldInit) : Rule Ty := do
  match ← lookupType name.name with
  | none =>
    report (.unknownType name.name) name.span
    visitFields fields
    return .error
  | some id =>
    let declared ← symbol id
    if declared.kind != .structType then
      report (.notAStruct name.name declared.kind) name.span
      visitFields fields
      return .error
    else
      let expected := declared.members.filter (·.method.isNone)
      let seen ← checkFields env name.name expected [] fields
      reportMissingFields name expected seen
      return .bare name.name (some id)

/-- With no elements the hint alone says what the array holds. -/
def arrayType (elements : List ExprId) (hint : Option Ty) : Rule Ty := do
  let elementHint := hint.bind Ty.arrayElement?
  let types ← elements.mapM (visit (.value elementHint))
  return .array (if types.isEmpty then elementHint.getD .unknown else .makeUnion types)

def entryTypes (keyHint valueHint : Option Ty) (entries : List MapEntry) :
    Rule (List (Ty × Ty)) :=
  entries.mapM fun entry => do
    let key ← visit (.value keyHint) entry.key
    let value ← visit (.value valueHint) entry.value
    return (key, value)

def mapType (entries : List MapEntry) (hint : Option Ty) : Rule Ty := do
  let entryHint := hint.bind Ty.mapEntry?
  let keyHint := entryHint.map (·.1)
  let valueHint := entryHint.map (·.2)
  let types ← entryTypes keyHint valueHint entries
  if types.isEmpty then return .map (keyHint.getD .unknown) (valueHint.getD .unknown)
  else return .map (.makeUnion (types.map (·.1))) (.makeUnion (types.map (·.2)))

/-- Each element takes the hint at its own position, if there is one. -/
def elementTypes : List Ty → List ExprId → Rule (List Ty)
  | _, [] => return []
  | hints, element :: rest => do
    let ty ← visit (.value hints.head?) element
    let types ← elementTypes hints.tail rest
    return ty :: types

def tupleType (elements : List ExprId) (hint : Option Ty) : Rule Ty := do
  let hints := match hint with
    | some (.tuple hints) => hints
    | _ => []
  let types ← elementTypes hints elements
  return .tuple types

/-- Only primitives are cast to each other. -/
def castable (source target : Ty) : Bool :=
  source.isAbsorbing || target.isAbsorbing ||
    (source.primitive?.isSome && target.primitive?.isSome)

def castType (value : ExprId) (target : TypeExpr) (span : Span) : Rule Ty := do
  let source ← visit (.value none) value
  let target ← resolveType target
  reportIf (!castable source target) (.invalidCast source target) span
  return target

end StaticTyping.Rule
