import StaticTyping.Diagnostic.Basic
import StaticTyping.Options.Basic
import StaticTyping.Source.Expr
import StaticTyping.Symbol.Basic
import StaticTyping.Text.Phrase
import StaticTyping.Text.Quoted
import StaticTyping.Ty.Display

/-! What the checker can find wrong, and how it says so. -/

namespace StaticTyping

/-- Where a value meets a type that it does not fit. -/
inductive Place where
  | initializer (name : String)
  | paramDefault (name : String)
  | returnValue
  | argument (param : String)
  | positionalArgument
  | spread (param : String)
  | keywordSpread (param : String)
  | assignment
  | mapKey
  | field (name : String)
  deriving DecidableEq, Repr

/-- What a missing member was looked for in. -/
inductive MemberOwner where
  | record (kind : SymbolKind) (name : String)
  | container (ty : Ty)
  deriving Repr

inductive Finding where
  | unparsedExpression
  | unknownIdentifier (name : String)
  | valueRedeclared (name : String) (existing : SymbolKind)
  | typeRedeclared (name : String) (existing : SymbolKind)
  | fieldRedeclared (field owner : String)
  | memberRedeclared (member owner : String)
  | unresolvedType
  | unknownType (name : String)
  | notAType (name : String)
  | aliasCycle (name : String)
  | genericArity (name : String) (expected found : Nat)
  | mismatch (place : Place) (expected found : Ty)
  | indexNotInteger (found : Ty)
  | structCalled (name : String)
  | typeCalled (kind : SymbolKind) (name : String)
  | notCallable (ty : Ty)
  | missingField (field record : String)
  | unknownMember (owner : MemberOwner) (name : String)
  | unknownField (record field : String)
  | unknownElement (tuple : Ty) (digits : String)
  | invalidCast (source target : Ty)
  | fieldRepeated (name : String)
  | notAStruct (name : String) (kind : SymbolKind)
  | unknownNamedArgument (callee name : String)
  | namedArgumentUnplaced (name : String)
  | argumentRepeated (name : String)
  | keywordSpreadOverlap (name : String)
  | mutableArgument (param : String)
  | tooManyPositional (callee : String) (limit : Nat)
  | tooManyArguments (expected found : Nat)
  | invalidSpread (ty : Ty)
  | spreadWithoutVariadic (ty : Ty) (callee : String)
  | invalidKeywordSpread (ty : Ty)
  | keywordSpreadUnplaced
  | missingArgument (param callee : String)
  | missingArguments (expected found : Nat)
  | nonStringSpreadKey (ty : Ty)
  | concatenation (left right : Ty)
  | arithmeticOperands (op : BinaryOp) (left right : Ty)
  | orderingOperands (op : BinaryOp) (left right : Ty)
  | logicalOperand (op : BinaryOp) (found : Ty)
  | equalityOperands (left right : Ty)
  | unaryOperand (sign : String) (found : Ty)
  | integerOutOfRange (negative : Bool) (digits : String) (width : Primitive)
  | constAssignment (name : String)
  | parameterAssignment (name : String)
  | symbolAssignment (kind : SymbolKind) (name : String)
  | invalidAssignmentTarget
  | isOperand (found : Ty)
  | constWithoutInitializer (name : String)
  | patternArity (variant : String) (carried bound : Nat)
  | literalPattern (literal subject : Ty)
  | foreignVariant (variant owner : String)
  | notAVariant (name : String)
  | conditionType (policy : ConditionPolicy) (found : Ty)
  | returnOutsideFunction
  | nonExhaustiveMatch (owner : String) (missing : List String)
  deriving Repr

open Text in
def Place.text : Place → String
  | .initializer name => s!"initializer of {quoted name}"
  | .paramDefault name => s!"default of parameter {quoted name}"
  | .returnValue => "return value"
  | .argument param => s!"argument {quoted param}"
  | .positionalArgument => "argument"
  | .spread param => s!"spread into {quoted param}"
  | .keywordSpread param => s!"keyword spread into {quoted param}"
  | .assignment => "assignment"
  | .mapKey => "map key"
  | .field name => s!"field {quoted name}"

open Text in
def MemberOwner.text : MemberOwner → String
  | .record kind name => s!"{kind.describe} {quoted name}"
  | .container ty => ty.text

def ConditionPolicy.requirement : ConditionPolicy → String
  | .any => ""
  | .truthy => "a truthy type"
  | .bool => "bool"

namespace Finding

def code : Finding → Code
  | unparsedExpression | unknownIdentifier _ => .unknownIdentifier
  | valueRedeclared _ _ | typeRedeclared _ _ | fieldRedeclared _ _ | memberRedeclared _ _ =>
    .duplicateSymbol
  | unresolvedType | unknownType _ | notAType _ => .unknownType
  | aliasCycle _ => .aliasCycle
  | genericArity _ _ _ => .genericArity
  | mismatch _ _ _ | indexNotInteger _ => .typeMismatch
  | structCalled _ | typeCalled _ _ | notCallable _ => .notCallable
  | missingField _ _ => .missingField
  | unknownMember _ _ | unknownField _ _ | unknownElement _ _ => .unknownMember
  | invalidCast _ _ => .invalidCast
  | fieldRepeated _ => .duplicateField
  | notAStruct _ _ => .notAStruct
  | unknownNamedArgument _ _ | namedArgumentUnplaced _ => .unknownNamedArgument
  | argumentRepeated _ => .duplicateArgument
  | keywordSpreadOverlap _ => .keywordSpreadOverlap
  | mutableArgument _ => .mutableArgument
  | tooManyPositional _ _ | tooManyArguments _ _ => .tooManyPositional
  | invalidSpread _ | spreadWithoutVariadic _ _ | invalidKeywordSpread _
  | keywordSpreadUnplaced => .invalidSpread
  | missingArgument _ _ | missingArguments _ _ => .missingArgument
  | nonStringSpreadKey _ => .nonStringSpreadKey
  | concatenation _ _ | arithmeticOperands _ _ _ => .arithmeticOperand
  | orderingOperands _ _ _ => .orderingOperand
  | logicalOperand _ _ => .logicalOperand
  | equalityOperands _ _ => .equalityOperand
  | unaryOperand _ _ => .unaryOperand
  | integerOutOfRange _ _ _ => .integerOutOfRange
  | constAssignment _ => .constAssignment
  | parameterAssignment _ => .parameterAssignment
  | symbolAssignment _ _ | invalidAssignmentTarget => .invalidAssignmentTarget
  | isOperand _ => .isOperand
  | constWithoutInitializer _ => .constWithoutInitializer
  | patternArity _ _ _ => .patternArity
  | literalPattern _ _ => .literalPattern
  | foreignVariant _ _ => .foreignVariant
  | notAVariant _ => .notAVariant
  | conditionType _ _ => .conditionType
  | returnOutsideFunction => .returnOutsideFunction
  | nonExhaustiveMatch _ _ => .nonExhaustiveMatch

/-- The bounds of an integer type, as a closed range. A type without bounds shows zeros. -/
def rangeText (width : Primitive) : String :=
  let (low, high) := width.bounds?.getD (0, 0)
  s!"{low}..={high}"

open Text in
def message : Finding → String
  | unparsedExpression => "expression could not be parsed"
  | unknownIdentifier name => s!"unknown identifier {quoted name}"
  | valueRedeclared name existing =>
    s!"{quoted name} is already declared as a {existing.describe} in this scope"
  | typeRedeclared name existing =>
    s!"type {quoted name} is already declared as a {existing.describe} in this scope"
  | fieldRedeclared field owner => s!"duplicate field {quoted field} in {quoted owner}"
  | memberRedeclared member owner => s!"duplicate member {quoted member} in {quoted owner}"
  | unresolvedType => "unresolved type in annotation"
  | unknownType name => s!"unknown type {quoted name}"
  | notAType name => s!"{quoted name} is not a type"
  | aliasCycle name => s!"type alias {quoted name} refers to itself"
  | genericArity name expected found =>
    if expected = 0 then s!"type {quoted name} does not take type arguments"
    else
      let arguments := plural expected "type argument"
      s!"type {quoted name} expects {arguments}, found {found}"
  | mismatch place expected found => Text.mismatch place.text expected.text found.text
  | indexNotInteger found => Text.mismatch "array index" "an integer" found.text
  | structCalled name => s!"struct {quoted name} cannot be called; use a struct literal"
  | typeCalled kind name => s!"{kind.describe} {quoted name} is not callable"
  | notCallable ty => s!"{ty.text} is not callable"
  | missingField field record =>
    s!"missing field {quoted field} in literal of struct {quoted record}"
  | unknownMember owner name => s!"{owner.text} has no member {quoted name}"
  | unknownField record field => s!"struct {quoted record} has no field {quoted field}"
  | unknownElement tuple digits => s!"tuple {tuple.text} has no element {digits}"
  | invalidCast source target => s!"cannot cast {source.text} to {target.text}"
  | fieldRepeated name => s!"field {quoted name} is given more than once"
  | notAStruct name kind => s!"{quoted name} is a {kind.describe}, not a struct"
  | unknownNamedArgument callee name => s!"{quoted callee} has no parameter named {quoted name}"
  | namedArgumentUnplaced name =>
    s!"named argument {quoted name} needs a callee with known parameter names"
  | argumentRepeated name => s!"argument {quoted name} is supplied more than once"
  | keywordSpreadOverlap name => s!"keyword spread supplies {quoted name}, which is already given"
  | mutableArgument param => s!"parameter {quoted param} is 'mut'; pass a mutable variable"
  | tooManyPositional callee limit =>
    let arguments := plural limit "positional argument"
    s!"too many positional arguments: {quoted callee} takes {arguments}"
  | tooManyArguments expected found => s!"too many arguments: expected {expected}, found {found}"
  | invalidSpread ty => s!"cannot spread {ty.text}; expected a tuple or an array"
  | spreadWithoutVariadic ty callee =>
    s!"cannot spread {ty.text} into {quoted callee}, which has no variadic parameter"
  | invalidKeywordSpread ty => s!"cannot keyword-spread {ty.text}; expected a map"
  | keywordSpreadUnplaced => "keyword spread needs a callee with known parameter names"
  | missingArgument param callee =>
    s!"missing argument for parameter {quoted param} of {quoted callee}"
  | missingArguments expected found => s!"missing arguments: expected {expected}, found {found}"
  | nonStringSpreadKey ty => s!"keyword spread keys must be strings, found {ty.text}"
  | concatenation left right =>
    s!"cannot concatenate {left.text} and {right.text}; both operands of '+' must be strings"
  | arithmeticOperands op left right =>
    s!"operator '{op.symbol}' requires identical numeric operands, found {left.text} and {right.text}"
  | orderingOperands op left right =>
    s!"operator '{op.symbol}' requires identical numeric operands, found {left.text} and {right.text}"
  | logicalOperand op found => s!"operator '{op.symbol}' expects bool operands, found {found.text}"
  | equalityOperands left right => s!"cannot compare {left.text} with {right.text}"
  | unaryOperand sign found => s!"unary '{sign}' expects a numeric operand, found {found.text}"
  | integerOutOfRange negative digits width =>
    let sign := if negative then "-" else ""
    s!"integer literal {sign}{digits} is out of range for {width.name} ({rangeText width})"
  | constAssignment name => s!"cannot assign through const {quoted name}"
  | parameterAssignment name => s!"cannot assign to parameter {quoted name}; declare it 'mut'"
  | symbolAssignment kind name => s!"cannot assign to {kind.describe} {quoted name}"
  | invalidAssignmentTarget => "invalid assignment target"
  | isOperand found =>
    s!"'is' compares aliasable values (arrays, maps or class instances), found {found.text}"
  | constWithoutInitializer name => s!"const {quoted name} must be initialized"
  | patternArity variant carried bound =>
    let values := plural carried "value"
    s!"variant {quoted variant} carries {values}, but the pattern binds {bound}"
  | literalPattern literal subject =>
    s!"a {literal.text} literal cannot match a subject of type {subject.text}"
  | foreignVariant variant owner =>
    s!"variant {quoted variant} does not belong to enum {quoted owner}"
  | notAVariant name => s!"{quoted name} is not an enum variant"
  | conditionType policy found => s!"condition must be {policy.requirement}, found {found.text}"
  | returnOutsideFunction => "'return' outside of a function"
  | nonExhaustiveMatch owner missing =>
    let noun := if missing.length = 1 then "variant" else "variants"
    s!"match on {quoted owner} is not exhaustive; missing {noun} {joinQuoted missing}"

def toDiagnostic (finding : Finding) (span : Span) : Diagnostic :=
  ⟨finding.code, finding.message, some span⟩

end Finding

end StaticTyping
