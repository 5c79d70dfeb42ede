import StaticTyping.Proofs.Mirror.Resolution

/-! Programs whose expressions differ only in the types that they name. All that the checker reads off
the shape of an expression is the same on both sides. -/

namespace StaticTyping

open Rule Program

namespace ExprKind

/-- The expressions differ at most in the names of types: those of casts, and of records that are
written out. -/
inductive Mirrors (m : Mirror) (c : Names) : ExprKind → ExprKind → Prop
  | cast {value : ExprId} {t u : TypeExpr} (h : t.Mirrors m c u) :
      Mirrors m c (.cast value t) (.cast value u)
  | record {a b : String} {span : Span} {fields : List FieldInit} (h : c a b) :
      Mirrors m c (.record ⟨a, span⟩ fields) (.record ⟨b, span⟩ fields)
  | same {kind : ExprKind} (hcast : ∀ value target, kind ≠ .cast value target)
      (hrecord : ∀ name fields, kind ≠ .record name fields) : Mirrors m c kind kind

/-- The expressions have the same shape, whatever types they name. -/
inductive Alike : ExprKind → ExprKind → Prop
  | cast (value : ExprId) (t u : TypeExpr) : Alike (.cast value t) (.cast value u)
  | record (name name' : Ident) (fields : List FieldInit) :
      Alike (.record name fields) (.record name' fields)
  | same (kind : ExprKind) : Alike kind kind

end ExprKind

/-- The programs have equally many expressions, of the same shapes. -/
structure Program.Alike (p q : Program) : Prop where
  depth : p.exprDepth = q.exprDepth
  kind (id : ExprId) : (p.expr id).kind.Alike (q.expr id).kind

namespace Program.Alike

variable {p q : Program}

variable (h : p.Alike q)

include h

lemma ungroupWithin (depth : Nat) (id : ExprId) :
    p.ungroupWithin depth id = q.ungroupWithin depth id := by
  induction depth generalizing id with
  | zero => rfl
  | succ depth ih =>
    simp only [Program.ungroupWithin]
    refine (h.kind id).casesOn (fun _ _ _ => rfl) (fun _ _ _ => rfl) fun kind => ?_
    cases kind with
    | group inner => exact ih inner
    | _ => rfl

lemma ungroup (id : ExprId) : p.ungroup id = q.ungroup id := by
  rw [Program.ungroup, Program.ungroup, h.depth, h.ungroupWithin]

lemma rootName? (id : ExprId) : p.rootName? id = q.rootName? id := by
  rw [Program.rootName?, Program.rootName?, h.depth]
  generalize q.exprDepth = depth
  induction depth generalizing id with
  | zero => rfl
  | succ depth ih =>
    simp only [rootNameWithin]
    refine (h.kind id).casesOn (fun _ _ _ => rfl) (fun _ _ _ => rfl) fun kind => ?_
    cases kind with
    | member object property => exact ih object
    | index object index => exact ih object
    | group inner => exact ih inner
    | _ => rfl

lemma isLiteralNode (id : ExprId) : p.isLiteralNode id = q.isLiteralNode id := by
  unfold Program.isLiteralNode
  exact (h.kind id).casesOn (fun _ _ _ => rfl) (fun _ _ _ => rfl) fun _ => rfl

lemma isLiteral (id : ExprId) : p.isLiteral id = q.isLiteral id := by
  unfold Program.isLiteral
  rw [h.ungroup]
  refine (h.kind (q.ungroup id)).casesOn (fun _ _ _ => rfl) (fun _ _ _ => rfl) fun kind => ?_
  split
  · rfl
  · exact h.isLiteralNode _
  · exact h.isLiteralNode _
  · rfl

lemma literalKey? (entry : MapEntry) : p.literalKey? entry = q.literalKey? entry := by
  unfold Program.literalKey?
  exact (h.kind entry.key).casesOn (fun _ _ _ => rfl) (fun _ _ _ => rfl) fun _ => rfl

omit h in
lemma nullTest? {k l k' l' : ExprKind} (hk : k.Alike k') (hl : l.Alike l') :
    StaticTyping.nullTest? k l = StaticTyping.nullTest? k' l' := by
  cases hk with
  | cast | record => cases hl <;> rfl
  | same =>
    cases hl with
    | cast | record =>
      cases k with
      | literal literal => cases literal <;> rfl
      | _ => rfl
    | same => rfl

lemma nullCondition? (id : ExprId) : p.nullCondition? id = q.nullCondition? id := by
  unfold Program.nullCondition?
  rw [h.ungroup]
  refine (h.kind (q.ungroup id)).casesOn (fun _ _ _ => rfl) (fun _ _ _ => rfl) fun kind => ?_
  split
  · rw [nullTest? (h.kind _) (h.kind _)]
  · rw [nullTest? (h.kind _) (h.kind _)]
  · rfl

end Program.Alike

structure Options.Alike (options options' : Options) : Prop where
  integer : options.defaultInteger = options'.defaultInteger
  float : options.defaultFloat = options'.defaultFloat
  containers : options.validateContainerMembers = options'.validateContainerMembers

protected lemma Options.Alike.refl (options : Options) : options.Alike options := ⟨rfl, rfl, rfl⟩

/-- Two environments, with the expressions that may be checked side by side in a scope where types go
by certain names. -/
structure Twins (m : Mirror) (env env' : Env) where
  exprs : Names → ExprId → Prop
  full : ∀ id, m.full id
  options : env.options.Alike env'.options
  alike : env.program.Alike env'.program
  span (id : ExprId) : env.exprSpan id = env'.exprSpan id
  kind {c : Names} {id : ExprId} : exprs c id → (env.exprKind id).Mirrors m c (env'.exprKind id)
  child {c : Names} {id part : ExprId} : exprs c id → part ∈ (env.exprKind id).children →
    exprs c part
  callee {c : Names} {id callee : ExprId} {args : List Argument} {name : String} : exprs c id →
    env.exprKind id = .call callee args → env.exprKind callee = .name name → c name name
  named {c : Names} {id : ExprId} {name : String} : exprs c id → env.exprKind id = .name name →
    m.values name

namespace Twins

variable {m : Mirror} {env env' : Env} (T : Twins m env env') {c : Names} {id : ExprId} {name : String}

include T in
/-- The kinds of an expression are the same, or it is a cast or a record on both sides. -/
@[elab_as_elim]
lemma kind_elim {motive : ExprKind → ExprKind → Prop} (id : ExprId)
    (hcast : ∀ value t u, motive (.cast value t) (.cast value u))
    (hrecord : ∀ name name' fields, motive (.record name fields) (.record name' fields))
    (hsame : ∀ kind, env.exprKind id = kind → motive kind kind) :
    motive (env.exprKind id) (env'.exprKind id) := by
  have hkind : (env.exprKind id).Alike (env'.exprKind id) := T.alike.kind id
  generalize hk : env.exprKind id = k at hkind
  generalize env'.exprKind id = l at hkind
  cases hkind with
  | cast value t u => exact hcast value t u
  | record name name' fields => exact hrecord name name' fields
  | same => exact hsame k hk

lemma part {kind : ExprKind} {part : ExprId} (hid : T.exprs c id) (hkind : env.exprKind id = kind)
    (h : part ∈ kind.children) : T.exprs c part :=
  T.child hid (hkind ▸ h)

lemma ungroupWithin (hid : T.exprs c id) (depth : Nat) :
    T.exprs c (env.program.ungroupWithin depth id) := by
  induction depth generalizing id with
  | zero => exact hid
  | succ depth ih =>
    rw [ungroupWithin]
    split
    · next inner hkind => exact ih (T.part hid hkind (.head _))
    · exact hid

lemma rootName (hid : T.exprs c id) (h : env.program.rootName? id = some name) : m.values name := by
  rw [rootName?] at h
  generalize env.program.exprDepth = depth at h
  induction depth generalizing id with
  | zero => simp [rootNameWithin] at h
  | succ depth ih =>
    rw [rootNameWithin] at h
    split at h
    · next hkind => exact T.named hid (hkind.trans (by simpa using h))
    · next hkind => exact ih (T.part hid hkind (.head _)) h
    · next hkind => exact ih (T.part hid hkind (.head _)) h
    · next hkind => exact ih (T.part hid hkind (.head _)) h
    · simp at h

lemma nullCondition {holdsForNull : Bool} (hid : T.exprs c id)
    (h : env.program.nullCondition? id = some (name, holdsForNull)) : m.values name := by
  have hinner : T.exprs c (env.program.ungroup id) := T.ungroupWithin hid _
  have htest : ∀ {op : BinaryOp} {left right : ExprId},
      (env.program.expr (env.program.ungroup id)).kind = .binary op left right →
      nullTest? (env.program.expr left).kind (env.program.expr right).kind = some name →
      m.values name := by
    intro op left right hkind htest
    have hleft : T.exprs c left := T.part hinner hkind (.head _)
    have hright : T.exprs c right := T.part hinner hkind (.tail _ (.head _))
    unfold nullTest? at htest
    split at htest
    · next hkind _ => exact T.named hleft (hkind.trans (by simpa using htest))
    · next _ hkind => exact T.named hright (hkind.trans (by simpa using htest))
    · simp at htest
  unfold nullCondition? at h
  split at h
  · next hkind =>
    obtain ⟨found, hfound, hpair⟩ := Option.map_eq_some_iff.mp h
    exact htest hkind ((Prod.mk.inj hpair).1 ▸ hfound)
  · next hkind =>
    obtain ⟨found, hfound, hpair⟩ := Option.map_eq_some_iff.mp h
    exact htest hkind ((Prod.mk.inj hpair).1 ▸ hfound)
  · simp at h

end Twins

def Mirror.VisitsAlike (m : Mirror) (v w : Visits) (R : State → State → Prop) (B : ExprId → Prop) :
    Prop :=
  ∀ role role' id, B id → role.Mirrors m role' →
    m.Runs R R (v.expr role id) (w.expr role' id) (Ty.Mirrors m)

namespace Mirror

variable {m : Mirror} {v w : Visits} {R : State → State → Prop} {B : ExprId → Prop} {id : ExprId}

lemma VisitsAlike.visit (h : m.VisitsAlike v w R B) (hid : B id) {role role' : Role}
    (hrole : role.Mirrors m role') :
    m.Agrees v w R (visit role id) (visit role' id) (Ty.Mirrors m) := by
  unfold Agrees Leads
  rw [toCheck_visit, toCheck_visit]
  exact h role role' id hid hrole

lemma VisitsAlike.value (h : m.VisitsAlike v w R B) (hid : B id) {x y : Option Ty}
    (hxy : Option.Rel (Ty.Mirrors m) x y) :
    m.Agrees v w R (Rule.visit (.value x) id) (Rule.visit (.value y) id) (Ty.Mirrors m) :=
  h.visit hid (.value hxy)

lemma VisitsAlike.only (h : m.VisitsAlike v w R B) (hid : B id) :
    m.Agrees v w R (Rule.visitOnly id) (Rule.visitOnly id) Both :=
  .andPure (h.value hid .none) fun _ _ _ => trivial

lemma VisitsAlike.each {α : Type} {xs : List α} {f : α → ExprId} (h : m.VisitsAlike v w R B)
    (hxs : ∀ x ∈ xs, B (f x)) : m.Agrees v w R (xs.forM fun x => visitOnly (f x))
      (xs.forM fun x => visitOnly (f x)) Both := by
  refine .forM (pairedSelf xs) ?_
  rintro x _ ⟨rfl, hx⟩
  exact h.only (hxs x hx)

end Mirror

end StaticTyping
