import StaticTyping.Rule.Callee

/-! Calls. Arguments are bound to parameters from left to right. -/

namespace StaticTyping

/-- The type that one leftover positional argument has to fit. -/
def ParamInfo.restElement (param : ParamInfo) : Ty := param.ty.arrayElement?.getD .unknown

/-- The type that one leftover named argument has to fit. -/
def ParamInfo.restValue (param : ParamInfo) : Ty := (param.ty.mapEntry?.map (·.2)).getD .unknown

/-- A value for a parameter: an argument, or an element of a tuple that is spread. -/
inductive Supplied where
  | expr (value : ExprId)
  | element (ty : Ty) (span : Span)
  deriving Repr

def Supplied.span (env : Env) : Supplied → Span
  | .expr value => env.exprSpan value
  | .element _ span => span

/-- How far a call is bound: the positional parameters still free, the names supplied, and whether a
spread whose contents are not known may have filled any of the others. -/
structure Binding where
  free : List ParamInfo
  supplied : List String := []
  anyFilled : Bool := false
  deriving Inhabited, Repr

namespace Binding

def start (sig : Signature) : Binding := { free := sig.positional }

def supply (b : Binding) (name : String) : Binding := { b with supplied := name :: b.supplied }

def fillAny (b : Binding) : Binding := { b with anyFilled := true }

end Binding

/-- How far a call without parameter names is bound: the values supplied, and whether a spread of
unknown length was among them. -/
structure Count where
  supplied : Nat := 0
  anyFilled : Bool := false
  deriving Inhabited, Repr

/-- The key of an entry, if it is a string literal. -/
def Program.literalKey? (p : Program) (entry : MapEntry) : Option String :=
  match (p.expr entry.key).kind with
  | .literal (.string key) => some key
  | _ => none

namespace Rule

/-- Whether a value is a variable that a callee may change. -/
def isMutableVariable (env : Env) : Supplied → Rule Bool
  | .element _ _ => return false
  | .expr value =>
    match env.exprKind value with
    | .name name => do
      match ← lookupValue name with
      | none => return false
      | some id =>
        let declared ← symbol id
        return declared.kind == .value && declared.isMutable && !declared.isConst
    | _ => return false

def checkMutable (env : Env) (param : ParamInfo) (value : Supplied) : Rule Unit :=
  if param.isMutable then do
    let mutable ← isMutableVariable env value
    reportIf (!mutable) (.mutableArgument param.name) (value.span env)
  else pure ()

def suppliedType (hint : Option Ty) : Supplied → Rule Ty
  | .expr value => visit (.value hint) value
  | .element ty _ => return ty

/-- Checks a value against the type that its parameter expects of it. -/
def checkSupplied (env : Env) (param : ParamInfo) (expected : Ty) (value : Supplied) :
    Rule Ty := do
  let found ← suppliedType (some expected) value
  reportIf (!found.assignable expected) (.mismatch (.argument param.name) expected found)
    (value.span env)
  checkMutable env param value
  return found

/-- Binds a value to the next free positional parameter, or to the variadic one when none is free. -/
def bindNext (env : Env) (sig : Signature) (b : Binding) (value : Supplied) :
    Rule (Ty × Binding) :=
  match b.free, sig.variadic? with
  | param :: free, _ => do
    reportIf (b.supplied.contains param.name) (.argumentRepeated param.name) (value.span env)
    let ty ← checkSupplied env param param.ty value
    return (ty, { b.supply param.name with free })
  | [], some param => do
    let ty ← checkSupplied env param param.restElement value
    return (ty, b)
  | [], none => do
    report (.tooManyPositional sig.callee sig.positional.length) (value.span env)
    let ty ← suppliedType none value
    return (ty, b)

def bindEach (env : Env) (sig : Signature) :
    Binding → List Supplied → Rule (List Ty × Binding)
  | b, [] => return ([], b)
  | b, value :: rest => do
    let (ty, b) ← bindNext env sig b value
    let (types, b) ← bindEach env sig b rest
    return (ty :: types, b)

/-- Checks a value against the parameter of that name, or against the one that collects names. -/
def checkNamed (env : Env) (sig : Signature) (name : String) (value : ExprId) (span : Span) :
    Rule Ty :=
  match sig.ordinary? name, sig.kwVariadic? with
  | some param, _ => checkSupplied env param param.ty (.expr value)
  | none, some param => checkSupplied env param param.restValue (.expr value)
  | none, none => do
    report (.unknownNamedArgument sig.callee name) span
    visit (.value none) value

/-- Binds a value to a name, unless the name is supplied already, which is reported as `repeated`. -/
def bindNamed (env : Env) (sig : Signature) (b : Binding) (name : String) (value : ExprId)
    (span : Span) (repeated : Finding) : Rule (Ty × Binding) :=
  if b.supplied.contains name then do
    report repeated span
    let ty ← visit (.value none) value
    return (ty, b)
  else do
    let ty ← checkNamed env sig name value span
    return (ty, b.supply name)

/-- Binds a spread by the type of what is spread. -/
def bindSpread (env : Env) (sig : Signature) (b : Binding) (ty : Ty) (span : Span) :
    Rule Binding :=
  match ty with
  | .tuple elements => do
    let (_, b) ← bindEach env sig b (elements.map (.element · span))
    return b
  | _ =>
    if ty.isAbsorbing then return b.fillAny
    else
      match ty.arrayElement?, sig.variadic? with
      | none, _ => do
        report (.invalidSpread ty) span
        return b
      | some _, none => do
        report (.spreadWithoutVariadic ty sig.callee) span
        return b
      | some element, some param => do
        reportIf (!element.assignable param.restElement)
          (.mismatch (.spread param.name) param.restElement element) span
        return b

def checkSpreadKey (key : Ty) (span : Span) : Rule Unit :=
  reportIf (!key.isString && !key.isAbsorbing) (.nonStringSpreadKey key) span

def spreadKeyTypes (env : Env) (entries : List MapEntry) : Rule (List Ty) :=
  entries.mapM fun entry => do
    let ty ← visit (.value (some .string)) entry.key
    checkSpreadKey ty (env.exprSpan entry.key)
    return ty

/-- Binds the entries of a map whose keys are all known. -/
def bindEntries (env : Env) (sig : Signature) :
    Binding → List (String × MapEntry) → Rule (List Ty × Binding)
  | b, [] => return ([], b)
  | b, (key, entry) :: rest => do
    let (ty, b) ← bindNamed env sig b key entry.value (env.exprSpan entry.key)
      (.keywordSpreadOverlap key)
    let (types, b) ← bindEntries env sig b rest
    return (ty :: types, b)

/-- Binds the spread of a map written out in the call. -/
def bindMapLiteral (env : Env) (sig : Signature) (b : Binding) (id : ExprId)
    (entries : List MapEntry) : Rule Binding := do
  let keyTypes ← spreadKeyTypes env entries
  match entries.mapM env.program.literalKey? with
  | none =>
    entries.forM fun entry => visitOnly entry.value
    record id (.map .string .unknown)
    return b.fillAny
  | some keys =>
    let (valueTypes, b) ← bindEntries env sig b (keys.zip entries)
    record id (if entries.isEmpty then .map .string .unknown
      else .map (.makeUnion keyTypes) (.makeUnion valueTypes))
    return b

def checkRestValue (sig : Signature) (value : Ty) (span : Span) : Rule Unit :=
  match sig.kwVariadic? with
  | some param =>
    reportIf (!value.assignable param.restValue)
      (.mismatch (.keywordSpread param.name) param.restValue value) span
  | none => pure ()

/-- Binds a keyword spread by the type of what is spread. Its keys are not known, so it may fill any
parameter. -/
def bindKeywordSpread (sig : Signature) (b : Binding) (ty : Ty) (span : Span) : Rule Binding :=
  if ty.isAbsorbing then return b.fillAny
  else
    match ty.mapEntry? with
    | none => do
      report (.invalidKeywordSpread ty) span
      return b
    | some (key, value) => do
      checkSpreadKey key span
      checkRestValue sig value span
      return b.fillAny

def bindArgument (env : Env) (sig : Signature) (b : Binding) (arg : Argument) : Rule Binding :=
  match arg.kind with
  | .positional => do
    let (_, b) ← bindNext env sig b (.expr arg.value)
    return b
  | .named name => do
    let (_, b) ← bindNamed env sig b name.name arg.value name.span (.argumentRepeated name.name)
    return b
  | .spread =>
    match env.exprKind arg.value with
    | .tuple elements => do
      let (types, b) ← bindEach env sig b (elements.map .expr)
      record arg.value (.tuple types)
      return b
    | _ => do
      let ty ← visit (.value none) arg.value
      bindSpread env sig b ty arg.span
  | .keywordSpread =>
    match env.exprKind arg.value with
    | .map entries => bindMapLiteral env sig b arg.value entries
    | _ => do
      let ty ← visit (.value none) arg.value
      bindKeywordSpread sig b ty arg.span

/-- Every parameter that needs a value and got none is missing, unless a spread may have filled it. -/
def reportMissing (sig : Signature) (b : Binding) (span : Span) : Rule Unit :=
  if b.anyFilled then pure ()
  else
    sig.params.forM fun param =>
      reportIf (param.isRequired && !b.supplied.contains param.name)
        (.missingArgument param.name sig.callee) span

def bindArguments (env : Env) (sig : Signature) (args : List Argument) (span : Span) :
    Rule Unit := do
  let b ← args.foldlM (bindArgument env sig) (Binding.start sig)
  reportMissing sig b span

def checkExpected (expected : Option Ty) (found : Ty) (span : Span) : Rule Unit :=
  match expected with
  | some expected =>
    reportIf (!found.assignable expected) (.mismatch .positionalArgument expected found) span
  | none => pure ()

/-- Checks a value against the parameter at its position, if there is one. -/
def countValue (env : Env) (params : List Ty) (position : Nat) (value : ExprId) : Rule Ty := do
  let found ← visit (.value params[position]?) value
  checkExpected params[position]? found (env.exprSpan value)
  return found

def countElements (env : Env) (params : List Ty) : Nat → List ExprId → Rule (List Ty)
  | _, [] => return []
  | position, element :: rest => do
    let ty ← countValue env params position element
    let types ← countElements env params (position + 1) rest
    return ty :: types

def countTypes (params : List Ty) (span : Span) : Nat → List Ty → Rule Unit
  | _, [] => pure ()
  | position, ty :: rest => do
    checkExpected params[position]? ty span
    countTypes params span (position + 1) rest

def countSpread (params : List Ty) (n : Count) (ty : Ty) (span : Span) : Rule Count :=
  match ty with
  | .tuple elements => do
    countTypes params span n.supplied elements
    return { n with supplied := n.supplied + elements.length }
  | _ =>
    if ty.isAbsorbing || ty.arrayElement?.isSome then return { n with anyFilled := true }
    else do
      report (.invalidSpread ty) span
      return n

def countArgument (env : Env) (params : List Ty) (n : Count) (arg : Argument) : Rule Count :=
  match arg.kind with
  | .positional => do
    let _ ← countValue env params n.supplied arg.value
    return { n with supplied := n.supplied + 1 }
  | .named name => do
    report (.namedArgumentUnplaced name.name) name.span
    visitOnly arg.value
    return n
  | .spread =>
    match env.exprKind arg.value with
    | .tuple elements => do
      let types ← countElements env params n.supplied elements
      record arg.value (.tuple types)
      return { n with supplied := n.supplied + elements.length }
    | _ => do
      let ty ← visit (.value none) arg.value
      countSpread params n ty arg.span
  | .keywordSpread => do
    visitOnly arg.value
    report .keywordSpreadUnplaced arg.span
    return n

def reportCount (params : List Ty) (n : Count) (span : Span) : Rule Unit :=
  if n.anyFilled then pure ()
  else if params.length < n.supplied then
    report (.tooManyArguments params.length n.supplied) span
  else reportIf (n.supplied < params.length) (.missingArguments params.length n.supplied) span

/-- Checks arguments where only the positions of parameters are known. -/
def countArguments (env : Env) (params : List Ty) (args : List Argument) (span : Span) :
    Rule Unit := do
  let n ← args.foldlM (countArgument env params) {}
  reportCount params n span

def callType (env : Env) (callee : ExprId) (args : List Argument) (span : Span) : Rule Ty := do
  match ← resolveCallee env callee with
  | .bound sig result =>
    bindArguments env sig args span
    return result
  | .unnamed params result =>
    countArguments env params args span
    return result
  | .untracked result =>
    args.forM fun arg => visitOnly arg.value
    return result

end Rule

end StaticTyping
