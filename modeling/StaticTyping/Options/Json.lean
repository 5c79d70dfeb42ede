import StaticTyping.Json.Value
import StaticTyping.Options.Basic

/-! Options from a JSON text. An object gives them by name, with keys of other names skipped; an array
gives them in the order in which they are declared. What is not given keeps its default. -/

namespace StaticTyping.Options

/-- One of a set of names, as a string or as the only key of an object, with `null` behind it. -/
def readName {α : Type} (ofName? : String → Option α) : Json → Option α
  | .string (some name) => ofName? name
  | .object [(some name, .null)] => ofName? name
  | _ => none

def readBool : Json → Option Bool
  | .bool value => some value
  | _ => none

/-- The value under a key, which may stand there once at most. -/
def field? {α : Type} (entries : List (String × Json)) (key : String) (read : Json → Option α)
    (default : α) : Option α :=
  match entries.filter (·.1 == key) with
  | [] => some default
  | [(_, value)] => read value
  | _ => none

def element? {α : Type} (elements : List Json) (position : Nat) (read : Json → Option α)
    (default : α) : Option α :=
  match elements[position]? with
  | none => some default
  | some value => read value

def ofEntries? (entries : List (String × Json)) : Option Options := do
  let defaults : Options := {}
  return {
    defaultInteger :=
      ← field? entries "default_integer" (readName Primitive.ofName?) defaults.defaultInteger
    defaultFloat :=
      ← field? entries "default_float" (readName Primitive.ofName?) defaults.defaultFloat
    conditionPolicy :=
      ← field? entries "condition_policy" (readName ConditionPolicy.ofName?)
        defaults.conditionPolicy
    validateContainerMembers :=
      ← field? entries "validate_container_members" readBool defaults.validateContainerMembers }

def ofElements? (elements : List Json) : Option Options := do
  let defaults : Options := {}
  if 4 < elements.length then none
  else return {
    defaultInteger := ← element? elements 0 (readName Primitive.ofName?) defaults.defaultInteger
    defaultFloat := ← element? elements 1 (readName Primitive.ofName?) defaults.defaultFloat
    conditionPolicy :=
      ← element? elements 2 (readName ConditionPolicy.ofName?) defaults.conditionPolicy
    validateContainerMembers := ← element? elements 3 readBool defaults.validateContainerMembers }

def ofJson? : Json → Option Options
  | .object entries => entries.mapM (fun (key, value) => key.map (·, value)) >>= ofEntries?
  | .array elements => ofElements? elements
  | _ => none

/-- Reads options and validates them. -/
def parse (text : String) : Except OptionsError Options :=
  match Json.parse? text >>= ofJson? with
  | none => .error .malformed
  | some options => options.validate.map fun _ => options

end StaticTyping.Options
