/-! The codes of diagnostics. Each rule of the checker has one. -/

namespace StaticTyping

inductive Level where
  | error | warning
  deriving DecidableEq, Inhabited, Repr

def Level.name : Level → String
  | error => "error"
  | warning => "warning"

inductive Code where
  | unknownIdentifier | duplicateSymbol | unknownType | aliasCycle | genericArity
  | typeMismatch | notCallable | missingField | unknownMember | invalidCast | duplicateField
  | notAStruct
  | unknownNamedArgument | duplicateArgument | keywordSpreadOverlap | mutableArgument
  | tooManyPositional | invalidSpread | missingArgument | nonStringSpreadKey
  | arithmeticOperand | orderingOperand | logicalOperand | equalityOperand | unaryOperand
  | integerOutOfRange
  | constAssignment | isOperand | parameterAssignment | invalidAssignmentTarget
  | constWithoutInitializer
  | patternArity | literalPattern | foreignVariant | notAVariant
  | conditionType | returnOutsideFunction
  | nonExhaustiveMatch
  deriving DecidableEq, Inhabited, Repr

namespace Code

def text : Code → String
  | unknownIdentifier => "E2001"
  | duplicateSymbol => "E2002"
  | unknownType => "E2003"
  | aliasCycle => "E2004"
  | genericArity => "E2005"
  | typeMismatch => "E2101"
  | notCallable => "E2102"
  | missingField => "E2103"
  | unknownMember => "E2104"
  | invalidCast => "E2105"
  | duplicateField => "E2106"
  | notAStruct => "E2107"
  | unknownNamedArgument => "E2201"
  | duplicateArgument => "E2202"
  | keywordSpreadOverlap => "E2203"
  | mutableArgument => "E2204"
  | tooManyPositional => "E2205"
  | invalidSpread => "E2206"
  | missingArgument => "E2207"
  | nonStringSpreadKey => "E2208"
  | arithmeticOperand => "E2301"
  | orderingOperand => "E2302"
  | logicalOperand => "E2303"
  | equalityOperand => "E2304"
  | unaryOperand => "E2305"
  | integerOutOfRange => "E2401"
  | constAssignment => "E2501"
  | isOperand => "E2502"
  | parameterAssignment => "E2503"
  | invalidAssignmentTarget => "E2504"
  | constWithoutInitializer => "E2505"
  | patternArity => "E2601"
  | literalPattern => "E2602"
  | foreignVariant => "E2603"
  | notAVariant => "E2604"
  | conditionType => "E2701"
  | returnOutsideFunction => "E2702"
  | nonExhaustiveMatch => "W2601"

def level : Code → Level
  | nonExhaustiveMatch => .warning
  | _ => .error

end Code

end StaticTyping
