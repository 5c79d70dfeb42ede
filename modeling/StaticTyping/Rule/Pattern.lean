import StaticTyping.Rule.Literal
import StaticTyping.Ty.Assignable
import StaticTyping.Ty.Substitution

/-! Patterns, and which variants of an enum a match leaves out. -/

namespace StaticTyping

/-- The enum that a match is on, with the types for its parameters. -/
structure MatchedEnum where
  symbol : SymbolId
  σ : Substitution
  deriving Repr

/-- What a pattern covers: everything, one variant, or some values that do not count. -/
inductive Coverage where
  | catchAll
  | variant (symbol : SymbolId)
  | literal
  | invalid
  deriving DecidableEq, Repr

/-- The variants that no pattern covers. There are none where a pattern covers everything, and none
are sought where one is wrong. -/
def Coverage.uncovered (variants : List SymbolId) (patterns : List Coverage) : List SymbolId :=
  if patterns.contains .catchAll || patterns.contains .invalid then []
  else variants.filter fun variant => !patterns.contains (.variant variant)

namespace Rule

/-- Declares a local such as a loop variable or a name that a pattern binds. -/
def declareLocal (name : String) (ty : Ty) (span : Span) : Rule Unit :=
  introduce { name, kind := .value, span, ty := some ty }

/-- The declaration and the arguments of a type that names an enum. -/
def enumOf? : Ty → Rule (Option (SymbolId × Option (List Ty)))
  | .named head args =>
    match head.symbol with
    | none => return none
    | some id => do
      let declared ← symbol id
      return if declared.kind == .enumType then some (id, args) else none
  | _ => return none

/-- The enum of a subject: its own, or the only one among the members of a union. -/
def subjectEnum (subject : Ty) : Rule (Option MatchedEnum) := do
  let found ← subject.unionMembers.mapM enumOf?
  match found.filterMap (·) with
  | [(id, args)] =>
    let declared ← symbol id
    return some ⟨id, .ofArgs declared.typeParams args⟩
  | _ => return none

/-- Binds names to the payload of a variant, and to nothing known beyond it. -/
def declareBindings (σ : Substitution) : List Ty → List Ident → Rule Unit
  | _, [] => pure ()
  | payload, binding :: rest => do
    let ty := (payload.head?.map (·.substitute σ)).getD .unknown
    declareLocal binding.name ty binding.span
    declareBindings σ payload.tail rest

/-- Whether a variant belongs to the matched enum, if there is one. -/
def checkOwner (variant : Symbol) (matched : Option MatchedEnum) (span : Span) : Rule Bool :=
  match matched with
  | none => return true
  | some expected =>
    if variant.owner = some expected.symbol then return true
    else do
      let owner ← symbol expected.symbol
      report (.foreignVariant variant.name owner.name) span
      return false

def variantPattern (variant : SymbolId) (bindings : List Ident) (span : Span)
    (matched : Option MatchedEnum) : Rule Coverage := do
  let declared ← symbol variant
  let belongs ← checkOwner declared matched span
  let fits := bindings.length == declared.payload.length
  reportIf (!fits) (.patternArity declared.name declared.payload.length bindings.length) span
  let σ := (matched.map (·.σ)).getD .empty
  declareBindings σ declared.payload bindings
  return if belongs && fits then .variant variant else .invalid

/-- A name is the variant of that name if there is one, and else binds the subject. -/
def namePattern (name : String) (span : Span) (subject : Ty) (matched : Option MatchedEnum) :
    Rule Coverage := do
  match ← lookupValue name with
  | none =>
    declareLocal name subject span
    return .catchAll
  | some id =>
    let declared ← symbol id
    if declared.kind == .variant then variantPattern id [] span matched
    else
      declareLocal name subject span
      return .catchAll

def checkPattern (options : Options) (pattern : Pattern) (subject : Ty)
    (matched : Option MatchedEnum) : Rule Coverage :=
  match pattern.kind with
  | .wildcard => return .catchAll
  | .name name => namePattern name pattern.span subject matched
  | .literal literal => do
    let ty ← literalType options literal (some subject) pattern.span false
    if ty.assignable subject then return .literal
    else
      report (.literalPattern ty subject) pattern.span
      return .invalid
  | .variant name bindings => do
    match ← lookupValue name.name with
    | none =>
      report (.unknownIdentifier name.name) name.span
      declareBindings .empty [] bindings
      return .invalid
    | some id =>
      let declared ← symbol id
      if declared.kind == .variant then variantPattern id bindings name.span matched
      else
        report (.notAVariant name.name) name.span
        declareBindings .empty [] bindings
        return .invalid

/-- Reports the variants that a match leaves out. -/
def checkExhaustive (matched : Option MatchedEnum) (patterns : List Coverage) (span : Span) :
    Rule Unit :=
  match matched with
  | none => pure ()
  | some expected => do
    let declared ← symbol expected.symbol
    let left ← (Coverage.uncovered declared.variants patterns).mapM symbol
    let missing := left.map (·.name)
    reportIf (!missing.isEmpty) (.nonExhaustiveMatch declared.name missing) span

end Rule

end StaticTyping
