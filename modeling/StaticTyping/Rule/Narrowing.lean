import StaticTyping.Rule.Basic
import StaticTyping.Ty.Union

/-! Conditions that compare a name with `null`, and what they say about it. -/

namespace StaticTyping

/-- A name compared with `null`, in either order. -/
def nullTest? (left right : ExprKind) : Option String :=
  match left, right with
  | .name name, .literal .null => some name
  | .literal .null, .name name => some name
  | _, _ => none

/-- The name that a condition compares with `null`, and whether the condition holds for `null`.
Parentheses around the whole condition play no part. -/
def Program.nullCondition? (p : Program) (condition : ExprId) : Option (String × Bool) :=
  match (p.expr (p.ungroup condition)).kind with
  | .binary .equal left right => (nullTest? (p.expr left).kind (p.expr right).kind).map (·, true)
  | .binary .notEqual left right =>
    (nullTest? (p.expr left).kind (p.expr right).kind).map (·, false)
  | _ => none

/-- The types of a name in the two branches of a condition. -/
structure Narrowing where
  name : String
  consequent : Ty
  alternative : Ty
  deriving Repr

/-- A name of absorbing type is not narrowed. -/
def Narrowing.ofType? (name : String) (holdsForNull : Bool) (current : Ty) : Option Narrowing :=
  if current.isAbsorbing then none
  else if holdsForNull then some ⟨name, .null, current.removeNull⟩
  else some ⟨name, current.removeNull, .null⟩

def Rule.findNarrowing (p : Program) (condition : ExprId) : Rule (Option Narrowing) :=
  match p.nullCondition? condition with
  | none => return none
  | some (name, holdsForNull) => do
    let current ← perform (.lookupValueType name)
    return current.bind (Narrowing.ofType? name holdsForNull)

end StaticTyping
