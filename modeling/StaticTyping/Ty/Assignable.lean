import StaticTyping.Ty.Equality

/-! When a value of one type may stand where another type is expected. -/

namespace StaticTyping.Ty

mutual

/-- Equal types fit, and so does anything where either side absorbs. A union fits where all its
members fit, and whatever fits one member of a union fits the union. Arguments and tuple elements are
covariant, parameters contravariant; arguments that were left out fit any. -/
def assignable (a b : Ty) : Bool :=
  a == b || a.isAbsorbing || b.isAbsorbing ||
    (match a with
      | .union xs => eachAssignable xs b
      | _ => false) ||
    (match b with
      | .union ys => assignableToSome a ys
      | _ => false) ||
    match a, b with
    | .named h none, .named k _ => h.name == k.name
    | .named h _, .named k none => h.name == k.name
    | .named h (some xs), .named k (some ys) => h.name == k.name && allAssignable xs ys
    | .tuple xs, .tuple ys => allAssignable xs ys
    | .fn ps r, .fn qs t => allAssignable qs ps && assignable r t
    | _, _ => false
termination_by sizeOf a + sizeOf b

/-- Lists of the same length, element by element. -/
def allAssignable : List Ty → List Ty → Bool
  | [], [] => true
  | x :: xs, y :: ys => assignable x y && allAssignable xs ys
  | _, _ => false
termination_by xs ys => sizeOf xs + sizeOf ys

def eachAssignable (xs : List Ty) (b : Ty) : Bool :=
  match xs with
  | [] => true
  | x :: rest => assignable x b && eachAssignable rest b
termination_by sizeOf xs + sizeOf b

def assignableToSome (a : Ty) (ys : List Ty) : Bool :=
  match ys with
  | [] => false
  | y :: rest => assignable a y || assignableToSome a rest
termination_by sizeOf a + sizeOf ys

end

theorem eachAssignable_eq_all (xs : List Ty) (b : Ty) :
    eachAssignable xs b = xs.all (assignable · b) := by
  induction xs with
  | nil => simp [eachAssignable]
  | cons x xs ih => simp [eachAssignable, ih]

theorem assignableToSome_eq_any (a : Ty) (ys : List Ty) :
    assignableToSome a ys = ys.any (assignable a ·) := by
  induction ys with
  | nil => simp [assignableToSome]
  | cons y ys ih => simp [assignableToSome, ih]

end StaticTyping.Ty
