import StaticTyping.Proofs.Mirror.Local
import StaticTyping.Proofs.Mirror.Pattern

/-! Statements side by side, and with them whole programs. -/

namespace StaticTyping

open Check List Option

variable {e d : FunctionDecl} {x y : Option SymbolId} {j i : SymbolId} {id : StmtId}
  {value : Option ExprId} {m : Pairing}

def conditionReports (policy : ConditionPolicy) (ty : Ty) (span : Span) : List Diagnostic :=
  if Rule.acceptsCondition policy ty then []
  else [(Finding.conditionType policy ty).toDiagnostic span]

lemma Ty.Mirrors.acceptsCondition {x y : Ty} (h : x.Mirrors m y)
    (policy : ConditionPolicy) : Rule.acceptsCondition policy x = Rule.acceptsCondition policy y := by
  cases policy with
  | any => rfl
  | truthy => exact h.isTruthy
  | bool => simp only [Rule.acceptsCondition, h.isAbsorbing, h.beq_eq (.prim .bool)]

lemma conditionReports_eq (hparams : ∀ a b, m.params a b → a = b) (hm : ¬m.loose)
    {x y : Ty} (h : x.Mirrors m y) (policy : ConditionPolicy) (span : Span) :
    conditionReports policy x span = conditionReports policy y span := by
  unfold conditionReports
  rw [h.acceptsCondition]
  split
  · rfl
  · exact congrArg (fun text => [(⟨.conditionType, s!"condition must be {policy.requirement}, found {text}",
      some span⟩ : Diagnostic)]) (h.text_eq hparams hm)

/-- Two environments, with the statements that may be checked side by side as well. -/
structure StmtTwins (m : Mirror) (env env' : Env) extends Twins m env env' where
  stmts : Names → StmtId → Prop
  declared {c : Names} {id : StmtId} : stmts c id → m.declared id
  stmtDepth : env.program.stmtDepth = env'.program.stmtDepth
  stmtSpan (id : StmtId) : (env.program.stmt id).span = (env'.program.stmt id).span
  stmtKind {c : Names} {id : StmtId} : stmts c id →
    (env.program.stmt id).kind.Mirrors m c (env'.program.stmt id).kind
  typeName {c : Names} {id : StmtId} {symbol : Symbol} : stmts c id →
    (env.program.stmt id).kind.typeSymbol? = some symbol →
      c symbol.name symbol.name ∧ m.kinds symbol.name symbol.kind
  typeAlias {c : Names} {id : StmtId} {decl : AliasDecl} : stmts c id →
    (env.program.stmt id).kind = .typeAlias decl → m.waiting ∨ m.known id
  held {c : Names} {id : StmtId} {part : ExprId} : stmts c id →
    part ∈ (env.program.stmt id).kind.exprs →
      exprs (m.inside c (env.program.stmt id).kind.typeParams (env'.program.stmt id).kind.typeParams)
        part
  inner {c : Names} {id part : StmtId} : stmts c id → part ∈ (env.program.stmt id).kind.children →
      stmts (m.inside c (env.program.stmt id).kind.typeParams (env'.program.stmt id).kind.typeParams)
        part
  ownName {c : Names} {id : StmtId} {name : String} : stmts c id →
    name ∈ (env.program.stmt id).kind.ownNames → m.values name
  condition {a b : Ty} (span : Span) : a.Mirrors m b →
    m.output (conditionReports env.options.conditionPolicy a span)
      (conditionReports env'.options.conditionPolicy b span)

namespace StmtTwins

variable {m : Mirror} {env env' : Env} (T : StmtTwins m env env') {c : Names} {id : StmtId}

lemma registers (hid : T.stmts c id) : m.Registers c env.program env'.program id where
  declared := T.declared hid
  kind := T.stmtKind hid
  typeName h := T.typeName hid h
  valueName h := T.ownName hid (StmtKind.ownNames_of_valueNames h)
  methods {kind a b method} ha hb hmethod := by
    have hinner : ∀ part ∈ (env.program.stmt id).kind.children, _ := fun _ h => T.inner hid h
    rw [ha, hb] at hinner
    exact ⟨T.declared (hinner method hmethod), T.stmtKind (hinner method hmethod)⟩

end StmtTwins

namespace Mirror

open Rule

variable {m : Mirror} {env env' : Env} (T : StmtTwins m env env') {v w : Visits}
  {E : TypeExpr → TypeExpr → Prop} {c : Names} {cs : List Names} {a b : Ty}

/-- All parts of statements are checked alike, in every scope. -/
structure Visited (T : StmtTwins m env env') (E : TypeExpr → TypeExpr → Prop) (v w : Visits) :
    Prop where
  expr {c : Names} {cs : List Names} : m.Context c →
    m.VisitsAlike v w (m.States E (c :: cs)) (T.exprs c)
  stmt {c : Names} {cs : List Names} {id : StmtId} : m.Context c → T.stmts c id →
    m.Runs (m.States E (c :: cs)) (m.States E (c :: cs)) (v.stmt id) (w.stmt id) Both
  heeds {c : Names} : m.Context c → m.Heeds E c
  left : v.expand = expand
  right : w.expand = expand

namespace Visited

variable {T}

lemma expands (hvisit : Visited T E v w) (hc : m.Context c) :
    m.Expands v w (m.States E (c :: cs)) [] := by
  refine ⟨fun span cyclic hij => ?_, calm_of_expand hvisit.right⟩
  rw [hvisit.left, hvisit.right]
  exact expand_runs hc (hvisit.heeds hc) hij span cyclic

lemma statement (hvisit : Visited T E v w) (hc : m.Context c) (hid : T.stmts c id) :
    m.Rules v w E (c :: cs) (visitStmt id) (visitStmt id) Both := by
  have hlift : ∀ visits : Visits, toCheck visits (visitStmt id) = visits.stmt id :=
    fun _ => Steps.bind_done _
  unfold Rules Agrees Leads
  rw [hlift, hlift]
  exact hvisit.stmt hc hid

lemma statements (hvisit : Visited T E v w) (hc : m.Context c) {ids : List StmtId}
    (hids : ∀ id ∈ ids, T.stmts c id) :
    m.Rules v w E (c :: cs) (ids.forM visitStmt) (ids.forM visitStmt) Both := by
  refine .forM (pairedSelf ids) ?_
  rintro id _ ⟨rfl, hid⟩
  exact hvisit.statement hc (hids id hid)

end Visited

variable (hvisit : Visited T E v w) (hc : m.Context c) {full : Prop} {body block : Block}
  {condition : ExprId}

include hvisit hc

lemma checkAgainst_agrees (place : Place) {value : ExprId} (hvalue : T.exprs c value)
    (hab : a.Mirrors m b) : m.Rules v w E (c :: cs) (checkAgainst env place value a)
      (checkAgainst env' place value b) Both := by
  refine .bind ((hvisit.expr hc).value hvalue (.some hab)) fun x y hxy => ?_
  rw [T.span]
  exact mismatch_agrees place hxy hab _

lemma bindingType_agrees {d e : LetDecl} (hde : d.Mirrors m c e)
    (hvalue : ∀ value ∈ d.value, T.exprs c value) :
    m.Rules v w E (c :: cs) (bindingType env d) (bindingType env' e) (Ty.Mirrors m) := by
  refine .bind (resolveOptional_agrees hc (hvisit.expands hc) hde.type) fun x y hxy => ?_
  rw [← hde.value, ← hde.name, ← hde.isConst]
  cases hd : d.value with
  | none =>
    refine .andThen (reportIf_agrees _ rfl rfl rfl fun _ => rfl) fun _ _ => ?_
    exact .pure (rel_getD hxy .unknown)
  | some value =>
    cases hxy with
    | none => exact (hvisit.expr hc).value (hvalue value hd) .none
    | some hxy =>
      exact .andThen (checkAgainst_agrees T hvisit hc _ (hvalue value hd) hxy) fun _ _ => .pure hxy

omit hvisit hc in
lemma fixedSymbol_leads {α β : Type} {V : α → β → Prop} (hij : m.symbols i j)
    {Q : State → State → Prop} {f : Symbol → Rule α} {g : Symbol → Rule β}
    (h : ∀ x y, x.Mirrors m E (m.full i) y → x.name = y.name →
      m.Leads v w (m.States E cs) Q (f x) (g y) V) :
    m.Leads v w (m.Fixing E cs i) Q (symbol i >>= f) (symbol j >>= g) V := by
  have hread : m.Agrees v w (m.Fixing E cs i) (symbol i) (symbol j)
      fun x y => x.Mirrors m E (m.full i) y ∧ x.name = y.name :=
    read_agrees (fun _ => rfl) (fun _ => rfl) fun _ _ hst =>
      ⟨hst.1.symbols hij, (hst.1.symbols hij).name hst.2.2⟩
  exact .bind hread fun x y hxy => .assume (h x y hxy.1 hxy.2) fun _ _ hst => hst.1

omit hvisit hc in
lemma selfType_mirrors (hij : m.symbols i j) {x y : Symbol} (hxy : x.Mirrors m E full y)
    (hname : x.name = y.name) : (selfType i x).Mirrors m (selfType j y) := by
  unfold selfType
  rw [hname, hxy.kind, forall₂_isEmpty hxy.typeParams]
  split
  · exact .bare (.some hij)
  · refine .named (.some hij) ?_
    exact rel_map (fun _ _ h => .param h) hxy.typeParams

abbrev Received (receiver : Option SymbolId) (s : State) : Prop :=
  ∀ i, receiver = some i → s.symbols.Fixes i

omit hvisit hc in
lemma declareSelf_leads (hcs : 1 < cs.length) (hxy : Rel m.symbols x y) (span : Span) :
    m.Leads v w (fun s t => m.States E cs s t ∧ Received x s) (m.States E cs)
      (declareSelf x span) (declareSelf y span) Both := by
  cases hxy with
  | none => exact .assume (.pure trivial) fun _ _ h => h.1
  | @some i j hij =>
    refine .assume (P := m.Fixing E cs i) ?_ fun _ _ h => ⟨h.1, h.2 i rfl⟩
    refine fixedSymbol_leads hij fun x y hxy hname => ?_
    rw [hxy.kind]
    exact introduce_agrees (valueSymbol_mirrors _ _ _ _ _ (selfType_mirrors hij hxy hname)) rfl rfl
      (.inr hcs)

lemma checkDefault_agrees {ps qs : List ParamInfo}
    (hps : Forall₂ (ParamInfo.Mirrors m) ps qs) {d e : ParamDecl}
    (hde : d.Mirrors m c e) (hdefault : ∀ value ∈ d.default, T.exprs c value) :
    m.Rules v w E (c :: cs) (checkDefault env ps d) (checkDefault env' qs e) Both := by
  unfold checkDefault
  rw [← hde.default, ← hde.name]
  cases hd : d.default with
  | none => exact .pure trivial
  | some value =>
    have hfound : Rel (ParamInfo.Mirrors m) (ps.find? (·.name == d.name))
        (qs.find? (·.name == d.name)) := forall₂_find? hps fun _ _ h => by rw [h.name]
    have hexpected : Ty.Mirrors m (((ps.find? (·.name == d.name)).map (·.ty)).getD .unknown)
        (((qs.find? (·.name == d.name)).map (·.ty)).getD .unknown) :=
      rel_elim hfound .unknown fun _ _ hxy => hxy.ty
    exact checkAgainst_agrees T hvisit hc _ (hdefault value hd) hexpected

omit hvisit hc in
lemma declareParam_agrees (hcs : 1 < cs.length) {p q : ParamInfo} (hpq : p.Mirrors m q) :
    m.Rules v w E cs (declareParam p) (declareParam q) Both := by
  unfold declareParam
  rw [hpq.name, hpq.span, hpq.isMutable]
  exact introduce_agrees (valueSymbol_mirrors _ _ _ _ _ hpq.ty) rfl rfl (.inr hcs)

omit hvisit hc in
lemma declaredResult_mirrors (hde : d.Mirrors m c e) {x y : Symbol} (hxy : x.Mirrors m E full y) :
    Rel (Ty.Mirrors m) (declaredResult d x) (declaredResult e y) := by
  unfold declaredResult
  refine rel_elim hde.result .none fun _ _ _ => rel_elim hxy.ty .none fun a b hab => ?_
  cases hab with
  | fn _ hresult => exact .some hresult
  | _ => exact .none

lemma checkBody_agrees {x y : Option Ty} (hab : Rel (Ty.Mirrors m) x y)
    (hbody : ∀ id ∈ body.statements, T.stmts c id) :
    m.Rules v w E (c :: cs) (checkBody x body) (checkBody y body) (Forall₂ (Ty.Mirrors m)) := by
  refine .andThen (enterFunction_agrees hab) fun _ _ => ?_
  exact .andThen (hvisit.statements hc hbody) fun _ _ => leaveFunction_agrees

omit hvisit hc in
lemma inferredResult_mirrors {xs ys : List Ty} (h : Forall₂ (Ty.Mirrors m) xs ys) :
    (inferredResult xs).Mirrors m (inferredResult ys) := by
  unfold inferredResult
  rw [forall₂_isEmpty h]
  split
  · exact .prim _
  · exact .makeUnion h

omit hvisit hc in
lemma fillFunctionType_agrees (hij : m.symbols i j) (hxy : Rel m.symbols x y)
    (hab : a.Mirrors m b) : m.Rules v w E cs (fillFunctionType i x a) (fillFunctionType j y b) Both := by
  refine .andThen (setType_agrees hij hab) fun _ _ => ?_
  cases hxy with
  | none => exact .pure trivial
  | some hkl =>
    exact modify_agrees (fun _ => rfl) (fun _ => rfl) hkl (fun _ => rfl) (fun _ => rfl) fun _ _ h =>
      { h with members := fun hfull => retypeFirst_mirrors hij hab (h.members hfull) }

lemma checkFunction_leads (hij : m.symbols i j) (hde : d.Mirrors m c e)
    (hdefaults : ∀ p ∈ d.params, ∀ value ∈ p.default,
      T.exprs (m.inside c d.typeParams e.typeParams) value)
    (hbody : ∀ id ∈ d.body.statements, T.stmts (m.inside c d.typeParams e.typeParams) id)
    (hxy : Rel m.symbols x y) :
    m.Leads v w (fun s t => m.States E (c :: cs) s t ∧ Received x s) (m.States E (c :: cs))
      (checkFunction env i d x) (checkFunction env' j e y) Both := by
  have hinside := hc.enter hde.typeParams.names
  refine .bind (V := fun r t => Forall₂ (ParamInfo.Mirrors m) r.1 t.1 ∧
    Forall₂ (Ty.Mirrors m) r.2 t.2) (inParams_leads hde.typeParams ?_ ?_) ?_
  · exact fun _ _ hkeep h i hi => (h i hi).mono hkeep
  · rw [← hde.name, ← hde.body]
    refine .andThen (declareSelf_leads (by simp) hxy _) fun _ _ => ?_
    refine .bind (symbol_agrees hij) fun f g hfg => ?_
    have hparams : Forall₂ (fun p q => p.Mirrors m (m.inside c d.typeParams e.typeParams) q ∧
        ∀ value ∈ p.default, T.exprs (m.inside c d.typeParams e.typeParams) value) d.params e.params :=
      forall₂_imp_mem hde.params fun p hp _ _ hpq => ⟨hpq, hdefaults p hp⟩
    refine .andThen (.forM hparams fun p q hpq =>
      checkDefault_agrees T hvisit hinside hfg.params hpq.1 hpq.2) fun _ _ => ?_
    refine .andThen (.forM hfg.params fun _ _ hpq => declareParam_agrees (by simp) hpq)
      fun _ _ => ?_
    refine .bind (symbol_agrees hij) fun f' g' hfg' => ?_
    exact .andPure (checkBody_agrees T hvisit hinside (declaredResult_mirrors hde hfg') hbody)
      fun _ _ h => ⟨hfg.params, h⟩
  rintro ⟨ps, xs⟩ ⟨qs, ys⟩ ⟨hps, hxs⟩
  dsimp only
  rw [rel_isSome hde.result]
  split
  · exact .pure trivial
  · exact fillFunctionType_agrees hij hxy (.fn (paramTypes_mirrors hps) (inferredResult_mirrors hxs))

lemma checkMethod_leads (hij : m.symbols i j) (hid : T.stmts c id) :
    m.Leads v w (m.Fixing E (c :: cs) i) (m.States E (c :: cs)) (checkMethod env i id)
      (checkMethod env' j id) Both := by
  have hkind := T.stmtKind hid
  have hheld : ∀ part ∈ (env.program.stmt id).kind.exprs, _ := fun _ h => T.held hid h
  have hinner : ∀ part ∈ (env.program.stmt id).kind.children, _ := fun _ h => T.inner hid h
  have hskip : m.Leads v w (m.Fixing E (c :: cs) i) (m.States E (c :: cs)) (pure ()) (pure ())
      Both := .assume (.pure trivial) fun _ _ h => h.1
  unfold checkMethod
  generalize (env.program.stmt id).kind = k at hkind hheld hinner
  generalize (env'.program.stmt id).kind = l at hkind hheld hinner
  cases hkind with
  | function hde =>
    refine .bind ((declaredSymbol_agrees (T.declared hid)).fixing i) fun f g hfg => ?_
    cases hfg with
    | none => exact hskip
    | some hkl =>
      refine .assume (checkFunction_leads T hvisit hc hkl hde ?_ hinner (.some hij)) ?_
      · exact fun p hp value hvalue => hheld value (mem_filterMap.mpr ⟨p, hp, hvalue⟩)
      · rintro s t ⟨hst, hi⟩
        refine ⟨hst, fun k hk => ?_⟩
        obtain rfl := some.inj hk
        exact hi
  | bind | record | enum | typeAlias => exact hskip
  | plain hplain =>
    cases k with
    | bind | function | record | enum | typeAlias => cases hplain
    | _ => exact hskip

lemma checkMethods_leads (hij : m.symbols i j) {d e : RecordDecl} (hde : d.Mirrors m c e)
    (hmethods : ∀ id ∈ d.methods, T.stmts (m.inside c d.typeParams e.typeParams) id) :
    m.Leads v w (m.Fixing E (c :: cs) i) (m.States E (c :: cs)) (checkMethods env i d)
      (checkMethods env' j e) Both := by
  have hinside := hc.enter hde.typeParams.names
  refine inParams_leads hde.typeParams (fun _ _ hkeep h => h.mono hkeep) ?_
  have heach : m.Agrees v w (m.Fixing E (m.inside c d.typeParams e.typeParams :: c :: cs) i)
      (d.methods.forM (checkMethod env i)) (d.methods.forM (checkMethod env' j)) Both := by
    refine .forM (pairedSelf d.methods) ?_
    rintro id _ ⟨rfl, hid⟩
    refine .assume ((checkMethod_leads T hvisit hinside hij (hmethods id hid)).fixing i) ?_
    exact fun _ _ h => ⟨h, h.2⟩
  rw [← hde.methods]
  exact fun s t hst =>
    have hrun := heach s t hst
    ⟨trivial, hrun.2.1.1, hrun.2.2⟩

lemma checkCondition_agrees (hid : T.exprs c condition) :
    m.Rules v w E (c :: cs) (checkCondition env condition)
      (checkCondition env' condition) Both := by
  refine .bind ((hvisit.expr hc).value hid (.some (.prim _))) fun x y hxy => ?_
  rw [T.span]
  have hreports : ∀ (policy : ConditionPolicy) (ty : Ty) (span : Span),
      conditionReports policy ty span = if !acceptsCondition policy ty then
        [(Finding.conditionType policy ty).toDiagnostic span] else [] := by
    intro policy ty span
    unfold conditionReports
    cases acceptsCondition policy ty <;> rfl
  refine reports_agrees _ ?_
  rw [← hreports, ← hreports]
  exact T.condition _ hxy

lemma checkBlock_agrees (hblock : ∀ id ∈ block.statements, T.stmts c id) :
    m.Rules v w E (c :: cs) (checkBlock block) (checkBlock block) Both :=
  inScope_agrees (hvisit.statements hc hblock)

lemma checkBranch_agrees {x y : Option (String × Ty)}
    (hxy : Rel (fun a b => a.1 = b.1 ∧ a.2.Mirrors m b.2) x y)
    (hblock : ∀ id ∈ block.statements, T.stmts c id) :
    m.Rules v w E (c :: cs) (checkBranch x block) (checkBranch y block) Both := by
  refine inScope_agrees ?_
  rcases rel_cases hxy with ⟨rfl, rfl⟩ | ⟨⟨name, a⟩, ⟨_, b⟩, rfl, rfl, rfl, hab⟩
  · exact hvisit.statements hc hblock
  · exact .andThen (narrow_agrees name hab) fun _ _ => hvisit.statements hc hblock

lemma checkIf_agrees (hid : T.exprs c condition) {consequent : Block}
    (hconsequent : ∀ id ∈ consequent.statements, T.stmts c id) {alternative : Option Block}
    (halternative : ∀ block ∈ alternative, ∀ id ∈ block.statements, T.stmts c id) :
    m.Rules v w E (c :: cs) (checkIf env condition consequent alternative)
      (checkIf env' condition consequent alternative) Both := by
  refine .andThen (checkCondition_agrees T hvisit hc hid) fun _ _ => ?_
  refine .bind (findNarrowing_agrees T.toTwins hid) fun x y hxy => ?_
  have hfirst : Rel (fun a b => a.1 = b.1 ∧ a.2.Mirrors m b.2)
      (x.map fun n => (n.name, n.consequent)) (y.map fun n => (n.name, n.consequent)) :=
    rel_elim hxy .none fun _ _ h => .some ⟨h.name, h.consequent⟩
  have hsecond : Rel (fun a b => a.1 = b.1 ∧ a.2.Mirrors m b.2)
      (x.map fun n => (n.name, n.alternative)) (y.map fun n => (n.name, n.alternative)) :=
    rel_elim hxy .none fun _ _ h => .some ⟨h.name, h.alternative⟩
  refine .andThen (checkBranch_agrees T hvisit hc hfirst hconsequent) fun _ _ => ?_
  cases alternative with
  | none => exact .pure trivial
  | some block => exact checkBranch_agrees T hvisit hc hsecond (halternative block rfl)

lemma returnedType_agrees (hvalue : ∀ id ∈ value, T.exprs c id) {x y : Option Ty}
    (hxy : Rel (Ty.Mirrors m) x y) (span : Span) :
    m.Rules v w E (c :: cs) (returnedType env value x span)
      (returnedType env' value y span) fun r t => r.1.Mirrors m t.1 ∧ r.2 = t.2 := by
  cases value with
  | none => exact .pure ⟨.prim _, rfl⟩
  | some id =>
    exact .andPure ((hvisit.expr hc).value (hvalue id rfl) hxy) fun _ _ h => ⟨h, T.span id⟩

lemma checkReturn_agrees (hvalue : ∀ id ∈ value, T.exprs c id) (span : Span) :
    m.Rules v w E (c :: cs) (checkReturn env value span) (checkReturn env' value span) Both := by
  refine .bind currentFunction_agrees fun x y hxy => ?_
  cases hxy with
  | none =>
    refine .andThen (reportSame_agrees span rfl) fun _ _ => ?_
    exact (hvisit.expr hc).each fun id hid => hvalue id (mem_toList.mp hid)
  | @some f g hfg =>
    refine .bind (returnedType_agrees T hvisit hc hvalue hfg.declared span) ?_
    rintro ⟨ty, place⟩ ⟨ty', _⟩ ⟨hty, rfl⟩
    exact rel_elim hfg.declared (noteReturn_agrees hty) fun _ _ hab =>
      .andThen (mismatch_agrees .returnValue hty hab place) fun _ _ => noteReturn_agrees hty

lemma checkMatch_agrees {subject : ExprId} (hid : T.exprs c subject) {arms : List MatchArm}
    (hnames : ∀ arm ∈ arms, ∀ name ∈ arm.pattern.name?, m.values name)
    (harms : ∀ arm ∈ arms, ∀ id ∈ arm.body.statements, T.stmts c id) (span : Span) :
    m.Rules v w E (c :: cs) (checkMatch env subject arms span)
      (checkMatch env' subject arms span) Both := by
  refine .bind ((hvisit.expr hc).value hid .none) fun x y hxy => ?_
  refine .bind (subjectEnum_agrees hxy) fun f g hfg => ?_
  have hcover : m.Rules v w E (c :: cs) (arms.mapM (checkArm env x f))
      (arms.mapM (checkArm env' y g)) (Forall₂ (Coverage.Mirrors m)) := by
    refine .mapM (pairedSelf arms) ?_
    rintro arm _ ⟨rfl, harm⟩
    refine inScope_agrees ?_
    refine .bind (checkPattern_agrees T.toTwins (by simp) (hnames arm harm) hxy hfg) fun _ _ h => ?_
    exact .andThen (hvisit.statements hc (harms arm harm)) fun _ _ => .pure h
  exact .bind hcover fun _ _ h => checkExhaustive_agrees T.toTwins hfg h span

lemma ensureRegistered_visited (hid : T.stmts c id) :
    m.Rules v w E (c :: cs) (ensureRegistered env.program id)
      (ensureRegistered env'.program id) (Rel m.symbols) :=
  ensureRegistered_agrees (T.registers hid) (fun _ h => T.typeAlias hid h) hvisit.heeds hvisit.left
    hvisit.right hc

lemma checkFunctionDecl_agrees (hid : T.stmts c id)
    (hd : (env.program.stmt id).kind = .function d) (he : (env'.program.stmt id).kind = .function e)
    (hde : d.Mirrors m c e) : m.Rules v w E (c :: cs) (checkFunctionDecl env id d)
      (checkFunctionDecl env' id e) Both := by
  have hheld : ∀ part ∈ (env.program.stmt id).kind.exprs, _ := fun _ h => T.held hid h
  have hinner : ∀ part ∈ (env.program.stmt id).kind.children, _ := fun _ h => T.inner hid h
  rw [hd, he] at hheld hinner
  refine .bind (ensureRegistered_visited T hvisit hc hid) fun x y hxy => ?_
  cases hxy with
  | none => exact .pure trivial
  | some hij =>
    refine .assume (checkFunction_leads T hvisit hc hij hde ?_ hinner .none) ?_
    · exact fun p hp value hvalue => hheld value (mem_filterMap.mpr ⟨p, hp, hvalue⟩)
    · exact fun _ _ hst => ⟨hst, fun _ h => by simp at h⟩

lemma checkRecordDecl_agrees (hid : T.stmts c id) {kind : RecordKind} {d e : RecordDecl}
    (hd : (env.program.stmt id).kind = .record kind d)
    (he : (env'.program.stmt id).kind = .record kind e) (hde : d.Mirrors m c e) :
    m.Rules v w E (c :: cs) (checkRecordDecl env id d) (checkRecordDecl env' id e) Both := by
  have hinner : ∀ part ∈ (env.program.stmt id).kind.children, _ := fun _ h => T.inner hid h
  rw [hd, he] at hinner
  refine .bindWith (K := fun found s => ∀ i ∈ found, s.symbols.Fixes i)
    (ensureRegistered_visited T hvisit hc hid) ?_ fun x y hxy => ?_
  · exact fun s t hst => ensureRegistered_fixes hd fun k hk => hst.noted hk
  cases hxy with
  | none => exact .assume (.pure trivial) fun _ _ h => h.1
  | some hij =>
    exact .assume (checkMethods_leads T hvisit hc hij hde hinner) fun _ _ h => ⟨h.1, h.2 _ rfl⟩

lemma statement_agrees (hid : T.stmts c id) :
    m.Rules v w E (c :: cs) (statement env id) (statement env' id) Both := by
  have hkind := T.stmtKind hid
  have hheld : ∀ part ∈ (env.program.stmt id).kind.exprs, _ := fun _ h => T.held hid h
  have hinner : ∀ part ∈ (env.program.stmt id).kind.children, _ := fun _ h => T.inner hid h
  have hname : ∀ name ∈ (env.program.stmt id).kind.ownNames, m.values name := fun _ h => T.ownName hid h
  have hregister : m.Rules v w E (c :: cs) (ensureRegistered env.program id >>= fun _ => pure ())
      (ensureRegistered env'.program id >>= fun _ => pure ()) Both :=
    .andPure (ensureRegistered_visited T hvisit hc hid) fun _ _ _ => trivial
  unfold statement
  dsimp only
  rw [T.stmtSpan id]
  generalize hk : (env.program.stmt id).kind = k at hkind hheld hinner hname
  generalize hl : (env'.program.stmt id).kind = l at hkind hheld hinner
  cases hkind with
  | bind hde =>
    simp only [StmtKind.typeParams, inside, map_nil, enter_nil] at hheld
    refine .bind (bindingType_agrees T hvisit hc hde fun value h =>
      hheld value (mem_toList.mpr h)) fun x y hxy => ?_
    rw [← hde.name, ← hde.isConst]
    exact introduce_agrees (valueSymbol_mirrors _ _ _ _ _ hxy) rfl rfl (.inl (hname _ (.head _)))
  | function hde => exact checkFunctionDecl_agrees T hvisit hc hid hk hl hde
  | record hde => exact checkRecordDecl_agrees T hvisit hc hid hk hl hde
  | enum | typeAlias => exact hregister
  | plain hplain =>
    have hnone : k.typeParams = [] := by
      cases k with
      | function | record | enum => cases hplain
      | _ => rfl
    simp only [hnone, inside, map_nil, enter_nil] at hheld hinner
    cases k with
    | bind | function | record | enum | typeAlias => cases hplain
    | branch condition consequent alternative =>
      refine checkIf_agrees T hvisit hc (hheld _ (.head _)) (fun id h => ?_) fun block hblock id h => ?_
      · exact hinner id (mem_append_left _ h)
      · refine hinner id (mem_append_right _ (mem_flatMap.mpr ⟨block, ?_, h⟩))
        exact mem_toList.mpr hblock
    | whileLoop condition body =>
      exact .andThen (checkCondition_agrees T hvisit hc (hheld _ (.head _))) fun _ _ =>
        checkBlock_agrees T hvisit hc hinner
    | forLoop binding iterable body =>
      refine .andThen ((hvisit.expr hc).only (hheld _ (.head _))) fun _ _ => inScope_agrees ?_
      exact .andThen (declareLocal_agrees (by simp) binding.name .unknown binding.span) fun _ _ =>
        hvisit.statements hc hinner
    | ret value =>
      exact checkReturn_agrees T hvisit hc (fun id h => hheld id (mem_toList.mpr h)) _
    | breakLoop | continueLoop => exact .pure trivial
    | cases subject arms =>
      refine checkMatch_agrees T hvisit hc (hheld _ (.head _)) (fun arm harm name h => ?_)
        (fun arm harm id h => ?_) _
      · exact hname name (mem_filterMap.mpr ⟨arm, harm, h⟩)
      · exact hinner id (mem_flatMap.mpr ⟨arm, harm, h⟩)
    | expr value => exact (hvisit.expr hc).only (hheld _ (.head _))
    | block block => exact checkBlock_agrees T hvisit hc hinner

omit hvisit hc

section Program

variable (hE : ∀ {c}, m.Context c → m.Heeds E c)

include hE

lemma stmtWithin_runs (depth : Nat) (hc : m.Context c) (hid : T.stmts c id) :
    m.Runs (m.States E (c :: cs)) (m.States E (c :: cs)) (stmtWithin env depth id)
      (stmtWithin env' depth id) Both := by
  induction depth generalizing c cs id with
  | zero => exact fun s t hst => ⟨trivial, hst, .refl s t⟩
  | succ depth ih =>
    refine statement_agrees T ⟨fun hc _ _ _ hid hrole => ?_, fun hc hid => ih hc hid, hE, rfl, rfl⟩
      hc hid
    exact expr_runs T.toTwins hc (hE hc) hid hrole

lemma stmt_runs (hc : m.Context c) (hid : T.stmts c id) :
    m.Runs (m.States E (c :: cs)) (m.States E (c :: cs)) (stmt env id) (stmt env' id) Both := by
  unfold stmt
  rw [T.stmtDepth]
  exact stmtWithin_runs T hE _ hc hid

lemma visited : Visited T E (visits env) (visits env') where
  expr hc _ _ _ hid hrole := expr_runs T.toTwins hc (hE hc) hid hrole
  stmt hc hid := stmt_runs T hE hc hid
  heeds := hE
  left := rfl
  right := rfl

end Program

end Mirror

end StaticTyping
