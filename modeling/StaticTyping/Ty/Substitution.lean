import StaticTyping.Ty.Union

/-! Types for type parameters. -/

namespace StaticTyping

/-- Which type stands for which type parameter. Each name occurs once. -/
structure Substitution where
  entries : List (String × Ty) := []
  deriving Inhabited, Repr

namespace Substitution

def empty : Substitution := {}

def isEmpty (σ : Substitution) : Bool := σ.entries.isEmpty

def get? (σ : Substitution) (name : String) : Option Ty := σ.entries.lookup name

/-- A later type for the same name replaces the earlier one. -/
def insert (σ : Substitution) (name : String) (t : Ty) : Substitution :=
  ⟨(name, t) :: σ.entries.filter (·.1 != name)⟩

/-- Pairs declared parameters with arguments, as far as both reach. Left out arguments pair with
nothing. -/
def ofArgs (params : List String) (args : Option (List Ty)) : Substitution :=
  match args with
  | none => empty
  | some types => (params.zip types).foldl (fun σ entry => σ.insert entry.1 entry.2) empty

end Substitution

namespace Ty

mutual

/-- Puts types for parameters everywhere and brings the unions that arise into normal form. -/
def replaceParams (σ : Substitution) : Ty → Ty
  | .prim p => .prim p
  | .named head none => .named head none
  | .named head (some args) => .named head (some (replaceParamsAll σ args))
  | .union members => makeUnion (replaceParamsAll σ members)
  | .tuple elements => .tuple (replaceParamsAll σ elements)
  | .fn params result => .fn (replaceParamsAll σ params) (replaceParams σ result)
  | .param name => (σ.get? name).getD (.param name)
  | .error => .error
  | .unknown => .unknown

def replaceParamsAll (σ : Substitution) : List Ty → List Ty
  | [] => []
  | t :: rest => replaceParams σ t :: replaceParamsAll σ rest

end

/-- Under the empty substitution a type stays as it is, also where its unions are not in normal
form. -/
def substitute (σ : Substitution) (t : Ty) : Ty :=
  if σ.isEmpty then t else t.replaceParams σ

end Ty

end StaticTyping
