import StaticTyping.Proofs.Mirror.Call

/-! Expressions side by side. -/

namespace StaticTyping.Mirror

open Rule List Check

variable {m : Mirror} {env env' : Env} (T : Twins m env env') {v w : Visits}
  {E : TypeExpr → TypeExpr → Prop} {c : Names} {cs : List Names} {id : ExprId}

section Visits

variable (hc : m.Context c) (hexpand : m.Expands v w (m.States E (c :: cs)) [])
  (hvisit : m.VisitsAlike v w (m.States E (c :: cs)) (T.exprs c))

include hc hexpand hvisit

lemma valueType_agrees (hid : T.exprs c id) {hint hint' : Option Ty}
    (hhint : Option.Rel (Ty.Mirrors m) hint hint') :
    m.Rules v w E (c :: cs) (valueType env id hint) (valueType env' id hint') (Ty.Mirrors m) := by
  have hkind := T.kind hid
  have hchild : ∀ part ∈ (env.exprKind id).children, T.exprs c part := fun _ h => T.child hid h
  have hcallee : ∀ callee args name, env.exprKind id = .call callee args →
      env.exprKind callee = .name name → c name name := fun _ _ _ h h' => T.callee hid h h'
  have hnamed : ∀ name, env.exprKind id = .name name → m.values name := fun _ h => T.named hid h
  unfold valueType
  rw [T.span id]
  generalize env.exprKind id = k at hkind hchild hcallee hnamed
  generalize env'.exprKind id = l at hkind
  generalize env'.exprSpan id = span
  cases hkind with
  | cast htu => exact castType_agrees T hvisit hc hexpand (hchild _ (.head _)) htu span
  | record hab =>
    refine recordType_agrees T hvisit hc hab _ fun field h => ?_
    exact hchild _ (mem_map_of_mem h)
  | same hcast hrecord =>
    cases k with
    | name name =>
      refine .bind (lookupValueType_agrees (hnamed name rfl)) fun found found' hfound => ?_
      cases hfound with
      | none => exact .andThen (reportSame_agrees span rfl) fun _ _ => .pure .error
      | some h => exact .pure h
    | literal literal => exact literalType_agrees T literal hhint span false
    | unary op operand =>
      have hoperand := hchild operand (.head _)
      cases op with
      | not => exact .andThen (hvisit.only hoperand) fun _ _ => .pure (.prim _)
      | minus => exact signedType_agrees T hvisit .minus "-" hoperand hhint span
      | plus => exact signedType_agrees T hvisit .plus "+" hoperand hhint span
    | binary op left right =>
      exact binaryType_agrees T hvisit op (hchild _ (.head _)) (hchild _ (.tail _ (.head _))) hhint span
    | assign op target value =>
      exact assignmentType_agrees T hvisit op (hchild _ (.head _)) (hchild _ (.tail _ (.head _))) span
    | call callee args =>
      refine callType_agrees T hvisit (hchild _ (.head _))
        (fun name h => hcallee callee args name rfl h) (fun arg h => ?_) span
      exact hchild _ (mem_cons_of_mem _ (mem_map_of_mem h))
    | member object property =>
      exact memberType_agrees T hvisit (hchild _ (.head _)) property
    | index object index =>
      exact indexType_agrees T hvisit (hchild _ (.head _)) (hchild _ (.tail _ (.head _)))
    | record name fields => exact absurd rfl (hrecord name fields)
    | array elements => exact arrayType_agrees T hvisit hchild hhint
    | map entries =>
      refine mapType_agrees T hvisit (fun entry h => ?_) hhint
      exact ⟨hchild _ (mem_flatMap.mpr ⟨entry, h, by simp⟩),
        hchild _ (mem_flatMap.mpr ⟨entry, h, by simp⟩)⟩
    | tuple elements => exact tupleType_agrees T hvisit hchild hhint
    | cast value target => exact absurd rfl (hcast value target)
    | group inner => exact hvisit.value (hchild _ (.head _)) hhint
    | hole => exact .andThen (reportSame_agrees span rfl) fun _ _ => .pure .error

lemma expression_agrees (hid : T.exprs c id) {role role' : Role} (hrole : role.Mirrors m role') :
    m.Rules v w E (c :: cs) (expression env role id) (expression env' role' id) (Ty.Mirrors m) := by
  have htype : m.Rules v w E (c :: cs) (roleType env role id)
      (roleType env' role' id) (Ty.Mirrors m) := by
    cases hrole with
    | value hhint => exact valueType_agrees T hc hexpand hvisit hid hhint
    | target =>
      exact targetType_agrees T hvisit hid (valueType_agrees T hc hexpand hvisit hid .none)
  exact .bind htype fun _ _ hab =>
    .andThen (record_agrees id hab) fun _ _ => .pure hab

end Visits

lemma exprWithin_runs (hc : m.Context c) (hE : m.Heeds E c) (depth : Nat) (hid : T.exprs c id)
    {role role' : Role} (hrole : role.Mirrors m role') :
    m.Runs (m.States E (c :: cs)) (m.States E (c :: cs)) (exprWithin env depth role id)
      (exprWithin env' depth role' id) (Ty.Mirrors m) := by
  induction depth generalizing id role role' with
  | zero => exact fun s t hst => ⟨.error, hst, .refl s t⟩
  | succ depth ih =>
    refine expression_agrees T hc ?_ (fun _ _ _ hid hrole => ih hid hrole) hid hrole
    exact ⟨fun span cyclic hij => expand_runs hc hE hij span cyclic, calm_of_expand rfl⟩

lemma expr_runs (hc : m.Context c) (hE : m.Heeds E c) (hid : T.exprs c id) {role role' : Role}
    (hrole : role.Mirrors m role') :
    m.Runs (m.States E (c :: cs)) (m.States E (c :: cs)) (expr env role id)
      (expr env' role' id) (Ty.Mirrors m) := by
  unfold expr
  rw [T.alike.depth]
  exact exprWithin_runs T hc hE _ hid hrole

end StaticTyping.Mirror
