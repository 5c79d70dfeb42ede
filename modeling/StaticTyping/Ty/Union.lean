import StaticTyping.Ty.Equality

/-! Unions in normal form. -/

namespace StaticTyping.Ty

/-- The members that a type brings into a union: its own if it is one, else itself. -/
def unionMembers : Ty → List Ty
  | .union members => members
  | t => [t]

/-- Adds a member unless an earlier one is the same. -/
def insertMember (members : List Ty) (t : Ty) : List Ty :=
  if members.any (· == t) then members else members ++ [t]

def dedup (members : List Ty) : List Ty :=
  members.foldl insertMember []

/-- The union of some types, with the unions among them opened and repeated members dropped, first
occurrences in order. Nothing gives an error, one member gives itself. -/
def makeUnion (types : List Ty) : Ty :=
  match dedup (types.flatMap unionMembers) with
  | [] => .error
  | [t] => t
  | members => .union members

/-- What remains of a type once `null` is ruled out. -/
def removeNull : Ty → Ty
  | .union members => makeUnion (members.filter (!·.isNull))
  | t => if t.isNull then .error else t

end StaticTyping.Ty
