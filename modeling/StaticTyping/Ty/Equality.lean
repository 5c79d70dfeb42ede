import StaticTyping.Ty.Basic

/-! When two types count as the same. Names decide for named types: the declaration behind a name
takes no part. Unions agree when they have equally many members and each member on the left is found
on the right, in any order. -/

namespace StaticTyping.Ty

mutual

def same : Ty → Ty → Bool
  | .prim p, .prim q => p == q
  | .named a none, .named b none => a.name == b.name
  | .named a (some xs), .named b (some ys) => a.name == b.name && sameAll xs ys
  | .union xs, .union ys => xs.length == ys.length && coveredBy ys xs
  | .tuple xs, .tuple ys => sameAll xs ys
  | .fn ps r, .fn qs t => sameAll ps qs && same r t
  | .param a, .param b => a == b
  | .error, .error => true
  | .unknown, .unknown => true
  | _, _ => false
termination_by a b => sizeOf a + sizeOf b

/-- Lists of the same length, element by element. -/
def sameAll : List Ty → List Ty → Bool
  | [], [] => true
  | x :: xs, y :: ys => same x y && sameAll xs ys
  | _, _ => false
termination_by xs ys => sizeOf xs + sizeOf ys

/-- Each type of the second list is found in the first. -/
def coveredBy (ys : List Ty) : List Ty → Bool
  | [] => true
  | x :: xs => foundIn x ys && coveredBy ys xs
termination_by xs => sizeOf ys + sizeOf xs

def foundIn (x : Ty) : List Ty → Bool
  | [] => false
  | y :: ys => same y x || foundIn x ys
termination_by ys => sizeOf ys + sizeOf x

end

instance : BEq Ty := ⟨same⟩

theorem foundIn_eq_any (x : Ty) (ys : List Ty) : foundIn x ys = ys.any (same · x) := by
  induction ys with
  | nil => simp [foundIn]
  | cons y ys ih => simp [foundIn, ih]

theorem coveredBy_eq_all (ys xs : List Ty) :
    coveredBy ys xs = xs.all fun x => ys.any (same · x) := by
  induction xs with
  | nil => simp [coveredBy]
  | cons x xs ih => simp [coveredBy, ih, foundIn_eq_any]

end StaticTyping.Ty
