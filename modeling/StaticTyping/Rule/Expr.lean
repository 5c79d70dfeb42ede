import StaticTyping.Rule.Aggregate
import StaticTyping.Rule.Assignment
import StaticTyping.Rule.Call

/-! Expressions. -/

namespace StaticTyping.Rule

def nameType (name : String) (span : Span) : Rule Ty := do
  match ← perform (.lookupValueType name) with
  | some ty => return ty
  | none =>
    report (.unknownIdentifier name) span
    return .error

/-- The type of an expression as a value. A hint only chooses the widths of literals. -/
def valueType (env : Env) (id : ExprId) (hint : Option Ty) : Rule Ty :=
  let span := env.exprSpan id
  match env.exprKind id with
  | .name name => nameType name span
  | .literal literal => literalType env.options literal hint span false
  | .unary op operand => unaryType env op operand hint span
  | .binary op left right => binaryType env op left right hint span
  | .assign op target value => assignmentType env op target value span
  | .call callee args => callType env callee args span
  | .member object property => memberType env object property
  | .index object index => indexType env object index
  | .record name fields => recordType env name fields
  | .array elements => arrayType elements hint
  | .map entries => mapType entries hint
  | .tuple elements => tupleType elements hint
  | .cast value target => castType value target span
  | .group inner => visit (.value hint) inner
  | .hole => do
    report .unparsedExpression span
    return .error

def roleType (env : Env) (role : Role) (id : ExprId) : Rule Ty :=
  match role with
  | .value hint => valueType env id hint
  | .target => targetType env id (valueType env id none)

/-- Finds the type of an expression and records it. -/
def expression (env : Env) (role : Role) (id : ExprId) : Rule Ty := do
  let ty ← roleType env role id
  record id ty
  return ty

end StaticTyping.Rule
