import StaticTyping.Ty.Primitive

/-! What a caller may choose about a check. -/

namespace StaticTyping

/-- What a condition may be: anything, a type that can be tested as it is, or `bool` alone. -/
inductive ConditionPolicy where
  | any | truthy | bool
  deriving DecidableEq, Inhabited, Repr

namespace ConditionPolicy

def name : ConditionPolicy → String
  | any => "any"
  | truthy => "truthy"
  | bool => "bool"

def ofName? (text : String) : Option ConditionPolicy :=
  [any, truthy, bool].find? (·.name == text)

end ConditionPolicy

structure Options where
  defaultInteger : Primitive := .i32
  defaultFloat : Primitive := .f64
  conditionPolicy : ConditionPolicy := .any
  validateContainerMembers : Bool := false
  deriving DecidableEq, Inhabited, Repr

inductive OptionsError where
  | malformed
  | notAnInteger (found : Primitive)
  | notAFloat (found : Primitive)
  deriving DecidableEq, Repr

def OptionsError.message : OptionsError → String
  | malformed => "invalid checker options"
  | notAnInteger found => s!"default_integer must be an integer type, found '{found.name}'"
  | notAFloat found => s!"default_float must be a float type, found '{found.name}'"

/-- The integer default is looked at first. -/
def Options.validate (options : Options) : Except OptionsError Unit :=
  if !options.defaultInteger.isInteger then .error (.notAnInteger options.defaultInteger)
  else if !options.defaultFloat.isFloat then .error (.notAFloat options.defaultFloat)
  else .ok ()

end StaticTyping
