import StaticTyping.Proofs.Mirror.Program

/-! Literals and operators side by side. Where the operand on the left waits for the right one, what
was put out is moved by as much on both sides. -/

namespace StaticTyping.Mirror

open Rule Option Finding Diagnostics Mirror.Text

variable {m : Mirror} {env env' : Env} (T : Twins m env env') {v w : Visits}
  {E : TypeExpr → TypeExpr → Prop} {c : Names} {cs : List Names} {id left right : ExprId}
  {hint hint' : Option Ty} {a b a' b' : Ty}

lemma offered?_eq (hhint : Rel (Ty.Mirrors m) hint hint') {accept : Primitive → Bool}
    (haccept : ∀ {a b p q}, Ty.Apart a b → a.primitive? = some p → b.primitive? = some q →
      accept p → accept q = false) :
    hint.bind (offered? accept) = hint'.bind (offered? accept) := by
  cases hhint with
  | none => rfl
  | some h => exact h.offered? haccept

include T in
lemma literalType_agrees (literal : Literal)
    (hhint : Rel (Ty.Mirrors m) hint hint') (span : Span) (negative : Bool) :
    m.Rules v w E cs (literalType env.options literal hint span negative)
      (literalType env'.options literal hint' span negative) (Ty.Mirrors m) := by
  have hint_eq : integerWidth env.options hint = integerWidth env'.options hint' := by
    rw [integerWidth, integerWidth, offered?_eq hhint fun h => h.integers, T.options.integer]
  have hfloat_eq : floatWidth env.options hint = floatWidth env'.options hint' := by
    rw [floatWidth, floatWidth, offered?_eq hhint fun h => h.floats, T.options.float]
  cases literal with
  | int digits =>
    simp only [literalType, hint_eq]
    exact .andThen (reportIf_agrees span rfl rfl rfl fun _ => rfl) fun _ _ =>
      .pure (.prim _)
  | float =>
    simp only [literalType, hfloat_eq]
    exact .pure (.prim _)
  | string | bool | null => exact .pure (.prim _)

lemma arithmeticType_agrees (op : BinaryOp) (ha : a.Mirrors m a')
    (hb : b.Mirrors m b') (span : Span) : m.Rules v w E cs (arithmeticType op a b span)
      (arithmeticType op a' b' span) (Ty.Mirrors m) := by
  simp only [arithmeticType, ha.isError, hb.isError, ha.isAbsorbing, hb.isAbsorbing,
    ha.isString, hb.isString, ha.isNumeric, ha.beq_eq hb]
  split
  · exact .pure .error
  · split
    · exact .pure .unknown
    · split
      · split
        · exact .pure (.prim _)
        · refine .andThen (report_agrees span rfl rfl fun h => ?_) fun _ _ => .pure .error
          unfold message
          simp only [same h ha, same h hb]
      · split
        · exact .pure ha
        · refine .andThen (report_agrees span rfl rfl fun h => ?_) fun _ _ => .pure .error
          unfold message
          simp only [same h ha, same h hb]

lemma toList_hoist_appended {ds : Diagnostics} {older first second : List Diagnostic}
    (h : ds.entries.toList = older ++ first ++ second) :
    (ds.hoist older.length (older ++ first).length).entries.toList = older ++ (second ++ first) := by
  rw [toList_hoist, h, if_pos (by simp), hoisted_between, List.append_assoc]

section Visits

variable (hvisit : m.VisitsAlike v w (m.States E (c :: cs)) (T.exprs c))

include hvisit

lemma operandTypes_agrees (hleft : T.exprs c left) (hright : T.exprs c right)
    (hhint : Rel (Ty.Mirrors m) hint hint') :
    m.Rules v w E (c :: cs) (operandTypes env left right hint) (operandTypes env' left right hint')
      fun x y => x.1.Mirrors m y.1 ∧ x.2.Mirrors m y.2 := by
  unfold operandTypes
  rw [T.alike.isLiteral, T.alike.isLiteral]
  split
  · intro s t hst
    obtain ⟨hfirst, hst₁, ⟨ds, es, hds, hes, hout⟩, hlog⟩ :=
      hvisit (.value hint) (.value hint') right hright (.value hhint) s t hst
    obtain ⟨hsecond, hst₂, ⟨ds', es', hds', hes', hout'⟩, hlog'⟩ :=
      hvisit _ _ left hleft (.value (.some hfirst)) _ _ hst₁
    simp only [toCheck_bind, toCheck_perform, toCheck_visit, Check.run_bind,
      Check.run_lift, Action.step, size_eq, hds, hes]
    rw [hds] at hds'
    rw [hes] at hes'
    refine ⟨⟨hsecond, hfirst⟩, ?_, ?_, ?_⟩
    · exact hst₂.withOutput _ _ _ _
    · -- What the left side put out goes ahead of what the right side did.
      exact ⟨ds' ++ ds, es' ++ es, toList_hoist_appended hds', toList_hoist_appended hes',
        m.output_append hout' hout⟩
    · exact (Adds.trans ⟨⟨ds, es, hds, hes, hout⟩, hlog⟩
        ⟨⟨ds', es', by rw [hds', hds], by rw [hes', hes], hout'⟩, hlog'⟩).types
  · refine .bind (hvisit.value hleft hhint) fun x y hxy => ?_
    exact .andPure (hvisit.value hright (.some hxy)) fun _ _ h => ⟨hxy, h⟩

lemma signedType_agrees (op : UnaryOp) (sign : String) (hid : T.exprs c id)
    (hhint : Rel (Ty.Mirrors m) hint hint') (span : Span) :
    m.Rules v w E (c :: cs) (signedType env op sign id hint span)
      (signedType env' op sign id hint' span) (Ty.Mirrors m) := by
  have hother : m.Rules v w E (c :: cs) (visit (.value hint) id >>= fun ty =>
        if ty.isAbsorbing || ty.isNumeric then pure ty
        else report (.unaryOperand sign ty) span >>= fun _ => pure .error)
      (visit (.value hint') id >>= fun ty =>
        if ty.isAbsorbing || ty.isNumeric then pure ty
        else report (.unaryOperand sign ty) span >>= fun _ => pure .error) (Ty.Mirrors m) := by
    refine .bind (hvisit.value hid hhint) fun x y hxy => ?_
    rw [hxy.isAbsorbing, hxy.isNumeric]
    split
    · exact .pure hxy
    · refine .andThen (report_agrees span rfl rfl fun h => ?_) fun _ _ => .pure .error
      unfold message
      simp only [same h hxy]
  cases op with
  | plus | not => exact hother
  | minus =>
    unfold signedType
    refine T.kind_elim id (fun _ _ _ => hother) (fun _ _ _ => hother) fun kind _ => ?_
    cases kind with
    | literal literal =>
      cases literal with
      | int digits =>
        refine .bind (literalType_agrees T (.int digits) hhint span true) fun x y hxy => ?_
        exact .andThen (record_agrees id hxy) fun _ _ => .pure hxy
      | _ => exact hother
    | _ => exact hother

omit hvisit in
include T in
lemma checkIsOperand_agrees (ha : a.Mirrors m a') (id : ExprId) :
    m.Rules v w E cs (checkIsOperand env a id) (checkIsOperand env' a' id) Both := by
  unfold checkIsOperand
  rw [T.span id]
  exact reportIf_agrees _ (by rw [ha.isAbsorbing, ha.isAliasable]) rfl rfl fun h => by
    unfold message
    simp only [same h ha]

lemma checkLogicalOperand_agrees (op : BinaryOp) (hid : T.exprs c id) :
    m.Rules v w E (c :: cs) (checkLogicalOperand env op id)
      (checkLogicalOperand env' op id) Both := by
  refine .bind (hvisit.value hid (.some (.prim .bool))) fun x y hxy => ?_
  have hbool : (x == .bool) = (y == .bool) := hxy.beq_eq (.prim .bool)
  rw [T.span id]
  exact reportIf_agrees _ (by rw [hxy.isAbsorbing, hbool]) rfl rfl fun h => by
    unfold message
    simp only [same h hxy]

lemma binaryType_agrees (op : BinaryOp) (hleft : T.exprs c left) (hright : T.exprs c right)
    (hhint : Rel (Ty.Mirrors m) hint hint') (span : Span) :
    m.Rules v w E (c :: cs) (binaryType env op left right hint span)
      (binaryType env' op left right hint' span) (Ty.Mirrors m) := by
  cases op with
  | is =>
    refine .bind (hvisit.value hleft .none) fun x y hxy => ?_
    refine .bind (hvisit.value hright .none) fun x' y' hxy' => ?_
    refine .andThen (checkIsOperand_agrees T hxy left) fun _ _ => ?_
    exact .andThen (checkIsOperand_agrees T hxy' right) fun _ _ => .pure (.prim _)
  | and | or =>
    refine .andThen (checkLogicalOperand_agrees T hvisit _ hleft) fun _ _ => ?_
    exact .andThen (checkLogicalOperand_agrees T hvisit _ hright) fun _ _ =>
      .pure (.prim _)
  | equal | notEqual =>
    refine .bind (operandTypes_agrees T hvisit hleft hright .none) ?_
    rintro ⟨x, x'⟩ ⟨y, y'⟩ ⟨hxy, hxy'⟩
    refine .andThen (reportIf_agrees span ?_ rfl rfl fun h => ?_) fun _ _ =>
      .pure (.prim _)
    · rw [hxy.assignable_eq hxy', hxy'.assignable_eq hxy]
    · unfold message
      simp only [same h hxy, same h hxy']
  | greater | greaterEqual | less | lessEqual =>
    refine .bind (operandTypes_agrees T hvisit hleft hright .none) ?_
    rintro ⟨x, x'⟩ ⟨y, y'⟩ ⟨hxy, hxy'⟩
    refine .andThen (reportIf_agrees span ?_ rfl rfl fun h => ?_) fun _ _ =>
      .pure (.prim _)
    · rw [hxy.isAbsorbing, hxy'.isAbsorbing, hxy.isNumeric, hxy.beq_eq hxy']
    · unfold message
      simp only [same h hxy, same h hxy']
  | add | subtract | multiply | divide | modulo | bitOr =>
    refine .bind (operandTypes_agrees T hvisit hleft hright hhint) ?_
    rintro ⟨x, x'⟩ ⟨y, y'⟩ ⟨hxy, hxy'⟩
    exact arithmeticType_agrees _ hxy hxy' span

end Visits

end StaticTyping.Mirror
