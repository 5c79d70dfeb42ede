import StaticTyping.Rule.Basic
import StaticTyping.Ty.Union

/-! From written types to types. An alias is expanded once and remembers its type. Aliases that lead
back to themselves are reported, and each of them on the way round is an error. -/

namespace StaticTyping.Rule

def checkArity (name : String) (expected found : Nat) (span : Span) : Rule Unit :=
  reportIf (expected != found) (.genericArity name expected found) span

/-- The type of a name that the program declares. -/
def declaredType (active : List String) (name : String) (args : List Ty) (span : Span)
    (cyclic : Cyclic) : Rule (Ty × Cyclic) := do
  match ← lookupType name with
  | none =>
    report (.unknownType name) span
    return (.error, cyclic)
  | some id =>
    let declared ← symbol id
    match declared.kind with
    | .typeParam =>
      checkArity name 0 args.length span
      return (.param name, cyclic)
    | .structType | .enumType | .classType =>
      checkArity name declared.typeParams.length args.length span
      let head : TypeHead := ⟨name, some id, declared.kind == .classType⟩
      return (.named head (if args.isEmpty then none else some args), cyclic)
    | .typeAlias =>
      checkArity name 0 args.length span
      Steps.lift (.expand active id span cyclic)
    | .value | .function | .variant =>
      report (.notAType name) span
      return (.error, cyclic)

/-- Primitive names and the two containers go before any declaration. -/
def namedType (active : List String) (name : String) (args : List Ty) (span : Span)
    (cyclic : Cyclic) : Rule (Ty × Cyclic) :=
  match Primitive.ofName? name with
  | some p => do
    checkArity name 0 args.length span
    return (.prim p, cyclic)
  | none =>
    if name = Ty.arrayName then do
      checkArity name 1 args.length span
      return (.array (args[0]?.getD .unknown), cyclic)
    else if name = Ty.mapName then do
      checkArity name 2 args.length span
      return (.map (args[0]?.getD .unknown) (args[1]?.getD .unknown), cyclic)
    else declaredType active name args span cyclic

mutual

/-- The type that a type expression stands for while the aliases in `active` are being expanded. -/
def resolveIn (active : List String) : TypeExpr → Cyclic → Rule (Ty × Cyclic)
  | .named span name args, cyclic => do
    let (args, cyclic) ← resolveAllIn active args cyclic
    namedType active name args span cyclic
  | .union _ members, cyclic => do
    let (members, cyclic) ← resolveAllIn active members cyclic
    return (.makeUnion members, cyclic)
  | .tuple _ elements, cyclic => do
    let (elements, cyclic) ← resolveAllIn active elements cyclic
    return (.tuple elements, cyclic)
  | .fn _ params result, cyclic => do
    let (params, cyclic) ← resolveAllIn active params cyclic
    let (result, cyclic) ← resolveIn active result cyclic
    return (.fn params result, cyclic)
  | .hole span, cyclic => do
    report .unresolvedType span
    return (.error, cyclic)

def resolveAllIn (active : List String) : List TypeExpr → Cyclic → Rule (List Ty × Cyclic)
  | [], cyclic => return ([], cyclic)
  | t :: rest, cyclic => do
    let (ty, cyclic) ← resolveIn active t cyclic
    let (types, cyclic) ← resolveAllIn active rest cyclic
    return (ty :: types, cyclic)

end

/-- The aliases from the latest one back to the one of that name. -/
def cycleThrough (active : List String) (name : String) : List String :=
  active.takeWhile (· != name) ++ [name]

/-- The type of an alias. An alias that is itself being expanded closes a cycle. -/
def expandAlias (active : List String) (id : SymbolId) (span : Span) (cyclic : Cyclic) :
    Rule (Ty × Cyclic) := do
  let declared ← symbol id
  match declared.ty, declared.aliasTarget with
  | some ty, _ => return (ty, cyclic)
  | none, none => return (.error, cyclic)
  | none, some target =>
    if active.contains declared.name then
      report (.aliasCycle declared.name) span
      return (.error, cycleThrough active declared.name ++ cyclic)
    else
      let (expanded, cyclic) ← resolveIn (declared.name :: active) target cyclic
      let ty := if cyclic.contains declared.name then .error else expanded
      perform (.fillType id ty)
      return (ty, cyclic)

def resolveType (t : TypeExpr) : Rule Ty := do
  let (ty, _) ← resolveIn [] t []
  return ty

def resolveOptional : Option TypeExpr → Rule (Option Ty)
  | none => return none
  | some t => do
    let ty ← resolveType t
    return some ty

/-- Expands an alias where it is declared. -/
def expandDeclared (id : SymbolId) : Rule Unit := do
  let declared ← symbol id
  let _ ← Steps.lift (.expand [] id declared.span [])

end StaticTyping.Rule
