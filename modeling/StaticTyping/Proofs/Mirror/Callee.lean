import StaticTyping.Proofs.Mirror.Access

/-! What is called, side by side: it has the same signature on both sides. -/

namespace StaticTyping

open Callee List Option

structure Signature.Mirrors (m : Mirror) (a b : Signature) : Prop where
  callee : m.exact → a.callee = b.callee
  params : List.Forall₂ (ParamInfo.Mirrors m) a.params b.params

inductive Callee.Mirrors (m : Mirror) : Callee → Callee → Prop
  | bound {f g : Signature} {a b : Ty} (hsig : f.Mirrors m g) (hresult : a.Mirrors m b) :
      Mirrors m (.bound f a) (.bound g b)
  | unnamed {xs ys : List Ty} {a b : Ty} (hparams : List.Forall₂ (Ty.Mirrors m) xs ys)
      (hresult : a.Mirrors m b) : Mirrors m (.unnamed xs a) (.unnamed ys b)
  | untracked {a b : Ty} (hresult : a.Mirrors m b) : Mirrors m (.untracked a) (.untracked b)

namespace Signature.Mirrors

variable {m : Mirror} {f g : Signature}

lemma positional (h : f.Mirrors m g) : Forall₂ (ParamInfo.Mirrors m) f.positional g.positional :=
  rel_filter (fun _ _ h => by simp only [h.role]) h.params

lemma variadic? (h : f.Mirrors m g) : Rel (ParamInfo.Mirrors m) f.variadic? g.variadic? :=
  forall₂_find? h.params fun _ _ h => by rw [h.role]

lemma kwVariadic? (h : f.Mirrors m g) : Rel (ParamInfo.Mirrors m) f.kwVariadic? g.kwVariadic? :=
  forall₂_find? h.params fun _ _ h => by rw [h.role]

lemma ordinary? (h : f.Mirrors m g) (name : String) :
    Rel (ParamInfo.Mirrors m) (f.ordinary? name) (g.ordinary? name) :=
  forall₂_find? h.params fun _ _ h => by
    rw [ParamInfo.isOrdinary, ParamInfo.isOrdinary, h.role, h.name]

end Signature.Mirrors

namespace Mirror

open Rule

variable {m : Mirror} {env env' : Env} (T : Twins m env env') {v w : Visits}
  {E : TypeExpr → TypeExpr → Prop} {c : Names} {cs : List Names} {id value : ExprId}
  {hint hint' : Option Ty} {a b a' b' : Ty} {full : Prop} {x y : Symbol} {f g : Signature}

lemma payloadParams_mirrors (hxy : x.Mirrors m E full y) :
    Forall₂ (ParamInfo.Mirrors m) x.payloadParams y.payloadParams := by
  have hzip : ∀ {xs ys : List Ty} (n : Nat), Forall₂ (Ty.Mirrors m) xs ys →
      Forall₂ (fun p q => p.1.Mirrors m q.1 ∧ p.2 = q.2) (xs.zipIdx n) (ys.zipIdx n) := by
    intro xs ys n h
    induction h generalizing n with
    | nil => exact .nil
    | cons h _ ih => exact .cons ⟨h, rfl⟩ (ih (n + 1))
  refine rel_map ?_ (hzip 0 hxy.payload)
  rintro ⟨ty, position⟩ ⟨ty', _⟩ ⟨hty, rfl⟩
  exact ⟨rfl, hty, rfl, rfl, rfl, hxy.span⟩

lemma paramTypes_mirrors {xs ys : List ParamInfo} (h : Forall₂ (ParamInfo.Mirrors m) xs ys) :
    Forall₂ (Ty.Mirrors m) (xs.map (·.ty)) (ys.map (·.ty)) :=
  rel_map (fun _ _ h => h.ty) h

section Callee

lemma calleeOfType_agrees (hab : a.Mirrors m b) (span : Span) :
    m.Rules v w E cs (calleeOfType a span) (calleeOfType b span) (Mirrors m) := by
  have hreport : m.Rules v w E cs
      (report (.notCallable a) span >>= fun _ => pure (.untracked .error))
      (report (.notCallable b) span >>= fun _ => pure (.untracked .error))
      (Mirrors m) :=
    .andThen (report_agrees span rfl rfl fun h => by
      unfold Finding.message
      simp only [Text.same h hab]) fun _ _ => .pure (.untracked .error)
  cases hab with
  | fn hparams hresult => exact .pure (.unnamed hparams hresult)
  | error => exact .pure (.untracked .error)
  | unknown | param => exact .pure (.untracked .unknown)
  | _ => exact hreport

lemma methodCallee_agrees (id : ExprId) {i j : SymbolId} (hij : m.symbols i j)
    {σ τ : Substitution} (hσ : σ.Mirrors m τ) :
    m.Rules v w E cs (methodCallee id i σ) (methodCallee id j τ) (Mirrors m) := by
  refine .bind (symbol_agrees hij) fun x y hxy => ?_
  have hty : Ty.Mirrors m ((x.ty.map (.substitute σ)).getD .unknown)
      ((y.ty.map (.substitute τ)).getD .unknown) :=
    rel_elim hxy.ty .unknown fun _ _ hab => hab.substitute hσ
  refine .andThen (record_agrees id hty) fun _ _ => ?_
  refine .pure (.bound ⟨hxy.exactName, ?_⟩ hty.resultOrUnknown)
  exact rel_map (fun _ _ h => { h with ty := h.ty.substitute hσ }) hxy.params

lemma ownerName_leads (hxy : x.Mirrors m E full y) :
    m.Leads v w (fun s t => m.States E cs s t ∧ ∀ id, x.owner = some id → s.symbols.Fixes id)
      (m.States E cs) (ownerName x) (ownerName y) (· = ·) := by
  unfold ownerName
  refine rel_elim hxy.owner (.assume (.pure rfl) fun _ _ h => h.1) fun i j hij => ?_
  rintro s t ⟨hst, howner⟩
  have hkind := (howner i rfl).2
  exact ⟨(hst.symbols hij).name hkind, hst, .refl s t⟩

lemma constructorParams_agrees (hxy : x.Mirrors m E full y) (hfull : full) :
    m.Rules v w E cs (constructorParams x) (constructorParams y)
      (Forall₂ (ParamInfo.Mirrors m)) := by
  unfold constructorParams
  refine rel_elim (member?_mirrors hxy hfull "init") (.pure .nil) fun p q hpq => ?_
  dsimp only [bind_some]
  exact rel_elim hpq.method (.pure .nil) fun _ _ hij =>
    .andPure (symbol_agrees hij) fun _ _ h => h.params

include T in
lemma constructorCallee_agrees (id : ExprId) {i j : SymbolId} (hij : m.symbols i j) (span : Span) :
    m.Rules v w E cs (constructorCallee id i span) (constructorCallee id j span) (Mirrors m) := by
  refine .bind (symbol_agrees hij) fun x y hxy => ?_
  have hother : ∀ kind, m.Rules v w E cs (report (.typeCalled kind x.name) span >>= fun _ =>
        record id .error >>= fun _ => pure (untracked .error))
      (report (.typeCalled kind y.name) span >>= fun _ =>
        record id .error >>= fun _ => pure (untracked .error)) (Mirrors m) :=
    fun kind => .andThen (report_agrees span rfl rfl fun h => by rw [hxy.exactName h])
      fun _ _ => .andThen (record_agrees id .error) fun _ _ => .pure (.untracked .error)
  rw [← hxy.kind]
  cases hkind : x.kind with
  | classType =>
    have hname : x.name = y.name := hxy.name (by simp [hkind])
    refine .bind (constructorParams_agrees hxy (T.full i)) fun ps qs hps => ?_
    have hresult : Ty.Mirrors m (.named ⟨x.name, some i, true⟩ none)
        (.named ⟨y.name, some j, true⟩ none) := by
      rw [← hname]
      exact .bare (.some hij)
    refine .andThen (record_agrees id (.fn (paramTypes_mirrors hps) hresult)) fun _ _ => ?_
    exact .pure (.bound ⟨fun _ => hname, hps⟩ hresult)
  | structType =>
    refine .andThen (report_agrees span rfl rfl fun h => by rw [hxy.exactName h]) fun _ _ => ?_
    exact .andThen (record_agrees id .error) fun _ _ => .pure (.untracked .error)
  | value | function | enumType | typeAlias | variant | typeParam => exact hother _

variable (hvisit : m.VisitsAlike v w (m.States E (c :: cs)) (T.exprs c))

include hvisit

lemma valueCallee_agrees (hid : T.exprs c id) :
    m.Rules v w E (c :: cs) (valueCallee env id) (valueCallee env' id) (Mirrors m) := by
  refine .bind (hvisit.value hid .none) fun x y hxy => ?_
  rw [T.span id]
  exact calleeOfType_agrees hxy _

lemma nameCallee_agrees (hid : T.exprs c id) {name : String} (hname : c name name)
    (hvalueName : m.values name) : m.Rules v w E (c :: cs) (nameCallee env id name)
      (nameCallee env' id name) (Mirrors m) := by
  have hvalue := valueCallee_agrees T hvisit hid
  refine .bind (lookupValue_agrees hvalueName) fun found found' hfound => ?_
  cases hfound with
  | none =>
    have htype : m.Rules v w E (c :: cs) (lookupType name) (lookupType name) (Rel m.symbols) :=
      read_agrees (fun _ => rfl) (fun _ => rfl) fun _ _ hst =>
        rel_imp (hst.lookupType hname) fun _ _ h => h.paired
    refine .bind htype fun found found' hfound => ?_
    cases hfound with
    | none => exact hvalue
    | some hij =>
      rw [T.span id]
      exact constructorCallee_agrees T id hij _
  | some hij =>
    refine .bindWith (K := fun x s => ∀ id, x.owner = some id → s.symbols.Fixes id)
      (symbol_agrees hij) (fun _ _ hst _ howner => hst.owners howner) fun x y hxy => ?_
    rw [← hxy.kind]
    cases x.kind with
    | function =>
      have hty : x.tyOrUnknown.Mirrors m y.tyOrUnknown := rel_getD hxy.ty .unknown
      refine .assume (.andThen (record_agrees id hty) fun _ _ => ?_) fun _ _ h => h.1
      exact .pure (.bound ⟨hxy.exactName, hxy.params⟩ hty.resultOrUnknown)
    | variant =>
      refine .bind (ownerName_leads hxy) ?_
      rintro name _ rfl
      refine .andThen (record_agrees id (rel_getD hxy.ty .unknown)) fun _ _ => ?_
      exact .pure (.bound ⟨hxy.exactName, payloadParams_mirrors hxy⟩ (.bareType hxy.owner name))
    | _ => exact .assume hvalue fun _ _ h => h.1

lemma memberCallee_agrees (id : ExprId) {object : ExprId} (hobject : T.exprs c object)
    (property : Ident) : m.Rules v w E (c :: cs) (memberCallee env id object property)
      (memberCallee env' id object property) (Mirrors m) := by
  refine .bind (hvisit.value hobject .none) fun x y hxy => ?_
  refine .bind (lookupMember_agrees T hxy property.name) fun found found' hfound => ?_
  cases hfound with
  | found hty hmethod hσ =>
    cases hmethod with
    | none =>
      rw [T.span id]
      exact .andThen (record_agrees id hty) fun _ _ => calleeOfType_agrees hty _
    | some hij => exact methodCallee_agrees id hij hσ
  | missing h =>
    refine .andThen (unknownMember_agrees h property.name property.span) fun _ _ => ?_
    exact .andThen (record_agrees id .error) fun _ _ => .pure (.untracked .error)
  | untracked =>
    exact .andThen (record_agrees id .unknown) fun _ _ => .pure (.untracked .unknown)

lemma resolveCallee_agrees (hid : T.exprs c id)
    (hname : ∀ name, env.exprKind id = .name name → c name name) :
    m.Rules v w E (c :: cs) (resolveCallee env id) (resolveCallee env' id) (Mirrors m) := by
  have hvalue := valueCallee_agrees T hvisit hid
  unfold resolveCallee
  refine T.kind_elim id (fun _ _ _ => hvalue) (fun _ _ _ => hvalue) fun kind hkind => ?_
  cases kind with
  | name name => exact nameCallee_agrees T hvisit hid (hname name hkind) (T.named hid hkind)
  | member object property =>
    exact memberCallee_agrees T hvisit id (T.part hid hkind (.head _)) property
  | _ => exact hvalue

end Callee

end Mirror

end StaticTyping
