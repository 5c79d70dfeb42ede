import StaticTyping.Rule.Literal
import StaticTyping.Ty.Assignable

/-! Operators and their operands. -/

namespace StaticTyping.Rule

/-- A minus belongs to the integer literal after it, so that the least value of a type can be
written. -/
def signedType (env : Env) (op : UnaryOp) (sign : String) (operand : ExprId) (hint : Option Ty)
    (span : Span) : Rule Ty :=
  match op, env.exprKind operand with
  | .minus, .literal (.int digits) => do
    let ty ← literalType env.options (.int digits) hint span true
    record operand ty
    return ty
  | _, _ => do
    let ty ← visit (.value hint) operand
    if ty.isAbsorbing || ty.isNumeric then return ty
    else
      report (.unaryOperand sign ty) span
      return .error

def unaryType (env : Env) (op : UnaryOp) (operand : ExprId) (hint : Option Ty) (span : Span) :
    Rule Ty :=
  match op with
  | .not => do
    visitOnly operand
    return .bool
  | .minus => signedType env op "-" operand hint span
  | .plus => signedType env op "+" operand hint span

/-- The result of an arithmetic operator. Errors go before unknowns; a string may be added to a
string; all else needs two numbers of one type. -/
def arithmeticType (op : BinaryOp) (left right : Ty) (span : Span) : Rule Ty :=
  if left.isError || right.isError then return .error
  else if left.isAbsorbing || right.isAbsorbing then return .unknown
  else if op == .add && (left.isString || right.isString) then
    if left.isString && right.isString then return .string
    else do
      report (.concatenation left right) span
      return .error
  else if left.isNumeric && left == right then return left
  else do
    report (.arithmeticOperands op left right) span
    return .error

/-- Checks both operands, the first one hinting at the type of the other. A literal on the left waits
for the right side; what it reports still comes first. -/
def operandTypes (env : Env) (left right : ExprId) (hint : Option Ty) : Rule (Ty × Ty) :=
  if env.program.isLiteral left && !env.program.isLiteral right then do
    let start ← perform .diagnosticCount
    let rightType ← visit (.value hint) right
    let middle ← perform .diagnosticCount
    let leftType ← visit (.value (some rightType)) left
    perform (.hoist start middle)
    return (leftType, rightType)
  else do
    let leftType ← visit (.value hint) left
    let rightType ← visit (.value (some leftType)) right
    return (leftType, rightType)

def checkIsOperand (env : Env) (ty : Ty) (side : ExprId) : Rule Unit :=
  reportIf (!ty.isAbsorbing && !ty.isAliasable) (.isOperand ty) (env.exprSpan side)

def checkLogicalOperand (env : Env) (op : BinaryOp) (side : ExprId) : Rule Unit := do
  let ty ← visit (.value (some .bool)) side
  reportIf (!ty.isAbsorbing && !(ty == .bool)) (.logicalOperand op ty) (env.exprSpan side)

def binaryType (env : Env) (op : BinaryOp) (left right : ExprId) (hint : Option Ty)
    (span : Span) : Rule Ty :=
  match op with
  | .is => do
    let leftType ← visit (.value none) left
    let rightType ← visit (.value none) right
    checkIsOperand env leftType left
    checkIsOperand env rightType right
    return .bool
  | .and | .or => do
    checkLogicalOperand env op left
    checkLogicalOperand env op right
    return .bool
  | .equal | .notEqual => do
    let (leftType, rightType) ← operandTypes env left right none
    reportIf (!leftType.assignable rightType && !rightType.assignable leftType)
      (.equalityOperands leftType rightType) span
    return .bool
  | .greater | .greaterEqual | .less | .lessEqual => do
    let (leftType, rightType) ← operandTypes env left right none
    let absorbed := leftType.isAbsorbing || rightType.isAbsorbing
    reportIf (!absorbed && !(leftType.isNumeric && leftType == rightType))
      (.orderingOperands op leftType rightType) span
    return .bool
  | .add | .subtract | .multiply | .divide | .modulo | .bitOr => do
    let (leftType, rightType) ← operandTypes env left right hint
    arithmeticType op leftType rightType span

end StaticTyping.Rule
