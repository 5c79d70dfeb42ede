import StaticTyping.Proofs.Distinct.Declaration

/-! What the rules for statements cost. A statement costs what stands in it and below it, and a
declaration that is registered by then costs as much less as that did cost. -/

namespace StaticTyping

open Rule StmtKind Diagnostic Steps State Program List Ident Nat

def Audit.bodyCost (A : Audit) (id : StmtId) : ℕ :=
  match (A.env.program.stmt id).kind with
  | .function decl => A.d.marksIn (Ident.repeats [] decl.typeParams) +
      (((function decl).exprs.map A.total).sum + (A.d.marksIn (decl.params.map (·.span)) +
        ((function decl).children.map A.stmtTotal).sum))
  | _ => 0

variable {decl : FunctionDecl} {id : StmtId}

namespace Audit.Reach

variable {A : Audit} {R : A.Reach} {span : Span} {w : A.World}

section Values

variable {value : ExprId}

lemma checkAgainst_costs (h : R.exprs value) (place : Place) (expected : Ty) :
    R.Costs (A.total value) (checkAgainst A.env place value expected) :=
  visit_use h _ .typeMismatch rfl fun _ => reportIf_costs .typeMismatch rfl

lemma bindingType_costs {decl : LetDecl} (h : ∀ e ∈ decl.value.toList, R.exprs e) :
    R.Costs (A.d.marksIn (decl.type.toList.flatMap TypeExpr.spans) +
      ((decl.value.toList.map A.total).sum +
        A.d.charge (some .constWithoutInitializer) decl.name.span)) (bindingType A.env decl) := by
  refine (resolveOptional_does decl.type).costs.bind fun written => ?_
  cases hvalue : decl.value with
  | none => exact (reportIf_costs .constWithoutInitializer rfl).andPure.le (le_add_left _ _)
  | some value =>
    have hexpr : R.exprs value := h value (by simp [hvalue])
    cases written with
    | none => exact (visit_total hexpr _).le (le_add_right _ _)
    | some declared => exact (checkAgainst_costs hexpr _ _).andPure.le (le_add_right _ _)

lemma checkLet_costs {decl : LetDecl} (h : ∀ e ∈ decl.value.toList, R.exprs e) :
    R.Costs (A.d.marksIn decl.spans + (decl.value.toList.map A.total).sum)
      (checkLet A.env decl) := by
  have hmarks := A.d.sum_charge_le_marks [some .constWithoutInitializer, some .duplicateSymbol]
    (by decide) decl.name.span
  refine (bindingType_costs h).bind_le (l := A.d.charge (some .duplicateSymbol) decl.name.span)
    (fun ty => ?_) ?_
  · exact introduce_costs (by simp) rfl rfl
  · simp only [map_cons, map_nil, sum_cons, sum_nil] at hmarks
    simp only [LetDecl.spans, marksIn_cons]
    omega

lemma checkCondition_costs (h : R.exprs value) :
    R.Costs (A.total value) (checkCondition A.env value) :=
  visit_use h _ .conditionType rfl fun _ => reportIf_costs .conditionType rfl

lemma noteReturn_costs (ty : Ty) : R.Costs 0 (perform (.noteReturn ty)) :=
  perform_costs (.noteReturn ty) fun _ => trivial

lemma noteChecked_costs (ty declared : Ty) : R.Costs (A.d.charge (some .typeMismatch) span) (do
      reportIf (!ty.assignable declared) (.mismatch .returnValue declared ty) span
      perform (.noteReturn ty)) :=
  Has.before (reportIf_costs .typeMismatch rfl) fun _ => noteReturn_costs ty

/-- What is returned is checked at its own span, and without a value at that of the statement. -/
lemma checkReturn_costs {value : Option ExprId} (h : ∀ e ∈ value.toList, R.exprs e) :
    R.Costs (A.d.marks span + (value.toList.map A.total).sum) (checkReturn A.env value span) := by
  refine .after (perform_costs .currentFunction fun _ => trivial) fun context => ?_
  cases context with
  | none =>
    have hreport := A.d.charge_le_marks (some .returnOutsideFunction) span
    exact .bind ((report_costs .returnOutsideFunction rfl).le hreport) fun _ =>
      .forM fun e he => visitOnly_costs (h e he)
  | some context =>
    dsimp only
    cases value with
    | none =>
      have hmarks := A.d.charge_le_marks (some .typeMismatch) span
      cases context.declared with
      | none => exact (noteReturn_costs .void).le (zero_le _)
      | some declared => exact (noteChecked_costs .void declared).le hmarks
    | some value =>
      have hexpr : R.exprs value := h value (by simp)
      refine .le ?_ (le_add_left _ _)
      cases context.declared with
      | none => exact (visit_total hexpr _).before fun ty => noteReturn_costs ty
      | some declared =>
        exact visit_use hexpr _ .typeMismatch rfl fun ty => noteChecked_costs ty declared

end Values

section Blocks

variable {block : Block}

lemma declareLocal_costs (name : String) (ty : Ty) :
    R.Costs (A.d.charge (some .duplicateSymbol) span) (declareLocal name ty span) :=
  introduce_costs (by simp) rfl rfl

lemma checkBlock_costs (h : ∀ c ∈ block.statements, R.stmts c) :
    R.Costs (block.statements.map A.stmtTotal).sum (checkBlock block) :=
  inScope_costs (visitStmts_costs h)

lemma checkBranch_costs (h : ∀ c ∈ block.statements, R.stmts c) (narrowed : Option (String × Ty)) :
    R.Costs (block.statements.map A.stmtTotal).sum (checkBranch narrowed block) := by
  refine inScope_costs ?_
  cases narrowed with
  | none => exact visitStmts_costs h
  | some entry =>
    refine .after (perform_costs (.narrow entry.1 entry.2) fun _ => trivial) fun _ => ?_
    exact visitStmts_costs h

lemma checkIf_costs {condition : ExprId} {alternative : Option Block}
    (hcondition : R.exprs condition) (hconsequent : ∀ c ∈ block.statements, R.stmts c)
    (halternative : ∀ c ∈ alternative.toList.flatMap (·.statements), R.stmts c) :
    R.Costs (A.total condition +
      ((block.statements ++ alternative.toList.flatMap (·.statements)).map A.stmtTotal).sum)
      (checkIf A.env condition block alternative) := by
  refine (checkCondition_costs hcondition).bind fun _ => ?_
  refine (findNarrowing_does _ condition).costs.after fun narrowing => ?_
  rw [map_append, sum_append_nat]
  refine (checkBranch_costs hconsequent _).bind fun _ => ?_
  cases alternative with
  | none => exact costs_pure () _
  | some other => simpa using checkBranch_costs (by simpa using halternative) _

lemma checkFor_costs {iterable : ExprId} (hiterable : R.exprs iterable)
    (hbody : ∀ c ∈ block.statements, R.stmts c) (binding : Ident) :
    R.Costs (A.total iterable + (A.d.marks binding.span + (block.statements.map A.stmtTotal).sum))
      (checkFor binding iterable block) := by
  refine (visitOnly_costs hiterable).bind fun _ => inScope_costs ?_
  have hbinding := A.d.charge_le_marks (some .duplicateSymbol) binding.span
  exact .bind ((declareLocal_costs _ _).le hbinding) fun _ => visitStmts_costs hbody

end Blocks

section Patterns

lemma declareBindings_costs (σ : Substitution) (payload : List Ty) (bindings : List Ident) :
    R.Costs (A.d.marksIn (bindings.map (·.span))) (declareBindings σ payload bindings) := by
  induction bindings generalizing payload with
  | nil =>
    exact costs_pure () _
  | cons binding rest ih =>
    exact .bind ((declareLocal_costs _ _).le (A.d.charge_le_marks _ _)) fun _ => ih _

lemma variantPattern_costs (variant : SymbolId) (bindings : List Ident)
    (matched : Option MatchedEnum) : R.Costs (A.d.marks span + A.d.marksIn (bindings.map (·.span)))
      (variantPattern variant bindings span matched) := by
  have hmarks := A.d.sum_charge_le_marks [some .foreignVariant, some .patternArity] (by decide) span
  refine costs_of_symbol fun declared _ => ?_
  have howner : R.Costs (A.d.charge (some .foreignVariant) span) (checkOwner declared matched span) :=
    (checkOwner_does declared matched).costs
  refine howner.bind_le (fun belongs =>
    Has.bind (reportIf_costs .patternArity rfl) fun _ =>
      (declareBindings_costs _ _ _).andPure) ?_
  simp only [map_cons, map_nil, sum_cons, sum_nil] at hmarks
  omega

lemma namePattern_costs (name : String) (subject : Ty) (matched : Option MatchedEnum) :
    R.Costs (A.d.marks span) (namePattern name span subject matched) := by
  have hlocal : R.Costs (A.d.marks span) (do
      declareLocal name subject span; return Coverage.catchAll) :=
    ((declareLocal_costs name subject).le (A.d.charge_le_marks _ span)).andPure
  refine (lookupValue_does _).costs.after fun found => ?_
  cases found with
  | none => exact hlocal
  | some id =>
    refine costs_of_symbol fun declared _ => ?_
    split
    · exact variantPattern_costs id [] matched
    · exact hlocal

lemma checkPattern_costs (pattern : Pattern) (subject : Ty) (matched : Option MatchedEnum) :
    R.Costs (A.d.marksIn pattern.spans) (checkPattern A.env.options pattern subject matched) := by
  unfold checkPattern Pattern.spans
  cases pattern.kind with
  | wildcard => exact costs_pure _ _
  | name name => exact (namePattern_costs name subject matched).le (by simp)
  | literal literal =>
    have hmarks := A.d.sum_charge_le_marks [some .integerOutOfRange, some .literalPattern]
      (by decide) pattern.span
    refine (literalType_does _ literal _ false).costs.bind_le (l := A.d.charge (some .literalPattern) pattern.span)
      (fun ty => ?_) (by simpa using hmarks)
    split
    · exact costs_pure _ _
    · exact (report_costs .literalPattern rfl).andPure
  | variant name bindings =>
    have hwrong (code : Code) (finding : Finding) (hcode : finding.topic = some code) :
        R.Costs (A.d.marks name.span + A.d.marksIn (bindings.map (·.span))) (do
          report finding name.span; declareBindings .empty [] bindings; return Coverage.invalid) :=
      .bind ((report_costs code hcode).le (A.d.charge_le_marks _ _)) fun _ =>
        (declareBindings_costs _ _ _).andPure
    have hspans : A.d.marks name.span + A.d.marksIn (bindings.map (·.span)) ≤
        A.d.marksIn (pattern.span :: name.span :: bindings.map (·.span)) := by simp
    refine .le ((lookupValue_does _).costs.after fun found => ?_) hspans
    cases found with
    | none => exact hwrong .unknownIdentifier _ rfl
    | some id =>
      refine costs_of_symbol fun declared _ => ?_
      split
      · exact variantPattern_costs id bindings matched
      · exact hwrong .notAVariant _ rfl

lemma checkMatch_costs {subject : ExprId} {arms : List MatchArm} (hsubject : R.exprs subject)
    (harms : ∀ c ∈ arms.flatMap (·.body.statements), R.stmts c) :
    R.Costs (A.total subject + ((A.d.marksIn (arms.flatMap MatchArm.spans) +
      ((arms.flatMap (·.body.statements)).map A.stmtTotal).sum) + A.d.marks span))
      (checkMatch A.env subject arms span) := by
  refine (visit_total hsubject _).bind fun subjectType => ?_
  refine (subjectEnum_does subjectType).costs.after fun matched => ?_
  refine .bind ?_ fun coverage =>
    (checkExhaustive_does matched coverage).costs.le (A.d.charge_le_marks _ span)
  rw [marksIn_flatMap, map_flatMap, flatMap_def, sum_flatten, map_map, ← sum_map_add]
  refine .mapM fun arm harm => inScope_costs ?_
  have hpattern : A.d.marksIn arm.pattern.spans ≤ A.d.marksIn arm.spans := by
    simp [MatchArm.spans]
  refine .bind ((checkPattern_costs arm.pattern subjectType matched).le hpattern) fun _ => ?_
  exact (visitStmts_costs fun c hc => harms c (mem_flatMap.mpr ⟨arm, harm, hc⟩)).andPure

end Patterns

section Functions

lemma checkBody_costs {body : Block} (h : ∀ c ∈ body.statements, R.stmts c) (declared : Option Ty) :
    R.Costs (body.statements.map A.stmtTotal).sum (checkBody declared body) := by
  refine .after (perform_costs (.enterFunction declared) fun _ => trivial) fun _ => ?_
  exact (visitStmts_costs h).before fun _ => perform_costs .leaveFunction fun _ => trivial

lemma introduce_fresh {symbol : Symbol} (hty : symbol.ty ≠ none) (hparams : symbol.params = [])
    (hmembers : symbol.members = []) (hw : w.1.scopes.inner.values = []) :
    (introduce symbol).Meets R.contract w fun _ v => Spends A.d [] 0 w.1 v.1 := by
  obtain ⟨ty, hty⟩ := Option.ne_none_iff_exists'.mp hty
  refine (perform_spends (.allocate symbol) w (.of_empty hparams hmembers)).bind ?_
  rintro id v ⟨-, hallocated, hv⟩
  refine (perform_spends (.declareValue symbol.name id) v trivial).bind ?_
  rintro found u ⟨hfound, -, hu⟩
  have hnew : v.1.scopes.inner.values.lookup symbol.name = none := by
    rw [hallocated]
    simp [Action.step, hw]
  simp only [Action.step, ScopeStack.declareValue, hnew] at hfound
  subst hfound
  exact (hv.trans hu).le (by simp [Action.price, Symbol.latent_of_ty hty])

lemma declareSelf_meets (receiver : Option SymbolId) (hw : w.1.scopes.inner.values = []) :
    (declareSelf receiver span).Meets R.contract w fun _ v => Spends A.d [] 0 w.1 v.1 := by
  cases receiver with
  | none => exact .refl w.1
  | some id =>
    refine (symbol_meets id w).bind ?_
    rintro _ _ ⟨rfl, rfl⟩
    exact introduce_fresh (by simp) rfl rfl hw

lemma checkDefaults_costs {decls : List ParamDecl}
    (h : ∀ e ∈ decls.filterMap (·.default), R.exprs e) (params : List ParamInfo) :
    R.Costs ((decls.filterMap (·.default)).map A.total).sum
      (decls.forM (checkDefault A.env params)) := by
  rw [filterMap_eq_flatMap_toList] at h ⊢
  rw [map_flatMap, flatMap_def, sum_flatten, map_map]
  refine .forM fun decl hdecl => ?_
  unfold checkDefault
  cases hdefault : decl.default with
  | none => exact costs_pure () _
  | some value =>
    have hexpr : R.exprs value := h value (mem_flatMap.mpr ⟨decl, hdecl, by simp [hdefault]⟩)
    simpa [hdefault] using checkAgainst_costs hexpr _ _

lemma functionWork_costs (hexprs : ∀ e ∈ (function decl).exprs, R.exprs e)
    (hbody : ∀ c ∈ (function decl).children, R.stmts c) (params : List ParamInfo)
    (id : SymbolId) :
    R.Costs (((function decl).exprs.map A.total).sum + (A.d.marksIn (params.map (·.span)) +
      ((function decl).children.map A.stmtTotal).sum)) (do
        decl.params.forM (checkDefault A.env params)
        params.forM declareParam
        let current ← symbol id
        let returns ← checkBody (declaredResult decl current) decl.body
        return (params, returns)) := by
  refine (checkDefaults_costs hexprs params).bind fun _ => ?_
  rw [marksIn_map]
  refine .bind (.forM fun param _ => ?_) fun _ => ?_
  · exact (introduce_costs (by simp) rfl rfl).le (A.d.charge_le_marks _ param.span)
  · exact costs_of_symbol fun _ _ => (checkBody_costs hbody _).andPure

lemma fillFunctionType_costs (id : SymbolId) (receiver : Option SymbolId) (ty : Ty) :
    R.Costs 0 (fillFunctionType id receiver ty) := by
  refine .after (perform_costs (.setType id ty) fun _ => trivial) fun _ => ?_
  cases receiver with
  | none => exact costs_pure () _
  | some owner => exact perform_costs (.retypeMethod owner id ty) fun _ => trivial

/-- The symbol of a function has no parameters but those that the function declares. -/
lemma checkFunction_meets (hkind : (A.env.program.stmt id).kind = .function decl)
    (hexprs : ∀ e ∈ (function decl).exprs, R.exprs e)
    (hbody : ∀ c ∈ (function decl).children, R.stmts c) {made : SymbolId}
    (hmade : (id, made) ∈ w.1.declarations) (receiver : Option SymbolId) :
    (checkFunction A.env made decl receiver).Meets R.contract w fun _ v =>
      Spends A.d [] (A.bodyCost id) w.1 v.1 := by
  have hcost : A.bodyCost id = A.d.marksIn (Ident.repeats [] decl.typeParams) +
      (((function decl).exprs.map A.total).sum + (A.d.marksIn (decl.params.map (·.span)) +
        ((function decl).children.map A.stmtTotal).sum)) := by
    simp only [bodyCost, hkind]
  refine Meets.bind
    (inScope_meets (k := A.bodyCost id) (Q := fun _ => True) fun v hfresh hsame => ?_)
    fun found u hu => ?_
  · refine (declareTypeParams_fresh decl.typeParams v hfresh).bind fun _ u hu => ?_
    refine (declareSelf_meets receiver hu.2).bind fun _ t ht => ?_
    have hdeclared : (id, made) ∈ t.1.declarations :=
      ht.declarations (hu.1.declarations (hsame ▸ hmade))
    refine (symbol_meets made t).bind ?_
    rintro _ t ⟨rfl, rfl⟩
    have hstands : t.1.StandsFor A.env.program id made := t.2.declarations _ hdeclared
    have hparams := A.d.marksIn_le_of_sublist (hstands.params decl hkind)
    refine (functionWork_costs hexprs hbody _ made t).mono fun _ z hz => ⟨?_, trivial⟩
    refine ((hu.1.trans ht).trans hz).le ?_
    omega
  · dsimp only
    split
    · exact hu.1
    · exact (fillFunctionType_costs made receiver _ u).mono fun _ _ hv => hu.1.trans hv

lemma checkMethod_costs (hid : R.stmts id) (owner : SymbolId) :
    R.Costs (A.bodyCost id) (checkMethod A.env owner id) := by
  unfold checkMethod
  cases hkind : (A.env.program.stmt id).kind with
  | function decl =>
    have hexprs := fun e => R.stmt_expr id e hid
    have hchildren := fun c => R.stmt_child id c hid
    rw [hkind] at hexprs
    rw [stmtChildren, hkind] at hchildren
    intro w
    refine (perform_spends (.declaredSymbol id) w trivial).bind ?_
    rintro found v ⟨hfound, hstate, -⟩
    obtain rfl : v = w := Subtype.ext hstate
    cases found with
    | none => exact (Spends.refl v.1).le (zero_le _)
    | some method =>
      exact checkFunction_meets hkind hexprs hchildren (mem_of_lookup_eq_some hfound.symm) (some owner)
  | _ => exact costs_pure () _

end Functions

section Statements

variable (hends : A.env.program.StmtEnds id) {k : ℕ} {kind : RecordKind}

include hends

lemma stmtTotal_of_kind {kind : StmtKind} (hkind : (A.env.program.stmt id).kind = kind) :
    A.stmtTotal id = A.d.marks (A.env.program.stmt id).span + A.d.marksIn kind.spans +
      A.d.marksIn kind.repeatedTypeParams + (kind.exprs.map A.total).sum +
      ((A.env.program.stmtParts id).map A.stmtTotal).sum := by
  unfold stmtTotal
  rw [gatherWithin_eq (StmtEnds.parts hends), Multiset.map_add, Multiset.sum_add, sum_map_trees,
    Multiset.map_singleton, Multiset.sum_singleton, nodeCost, Stmt.spans, marksIn_cons, hkind]

/-- A function costs no more to register and to check than what stands in it. The type parameters
that repeat a name count twice. -/
lemma functionCost_add_bodyCost : A.functionCost id + A.bodyCost id ≤ A.stmtTotal id := by
  unfold functionCost bodyCost
  cases hkind : (A.env.program.stmt id).kind with
  | function decl =>
    have hrepeats := A.d.marksIn_le_of_sublist (repeats_sublist [] decl.typeParams)
    have htotal := stmtTotal_of_kind hends hkind
    simp only [StmtKind.spans, FunctionDecl.spans, StmtKind.repeatedTypeParams, stmtParts,
      hkind, marksIn_cons, marksIn_append] at htotal
    dsimp only
    omega
  | _ => exact zero_le _

omit hends in
lemma sum_bodyCost (ids : List StmtId) :
    (ids.map A.bodyCost).sum = ((ids.filter A.env.program.isFunction).map A.bodyCost).sum := by
  have hcost (id : StmtId) : A.bodyCost id = if A.env.program.isFunction id then A.bodyCost id else 0 := by
    unfold bodyCost isFunction
    cases (A.env.program.stmt id).kind <;> simp
  simpa [List.sum_map_ite] using congrArg (fun cost => (ids.map cost).sum) (funext hcost)

lemma registerCost_of_record {decl : RecordDecl}
    (hkind : (A.env.program.stmt id).kind = .record kind decl) :
    A.registerCost id + (A.d.marksIn (Ident.repeats [] decl.typeParams) +
      (decl.methods.map A.bodyCost).sum) ≤ A.stmtTotal id := by
  have hrepeats := A.d.marksIn_le_of_sublist (repeats_sublist [] decl.typeParams)
  have htotal := stmtTotal_of_kind hends hkind
  have hsum : ((decl.methods.filter A.env.program.isFunction).map A.functionCost).sum +
      ((decl.methods.filter A.env.program.isFunction).map A.bodyCost).sum ≤
      ((decl.methods.filter A.env.program.isFunction).map A.stmtTotal).sum := by
    rw [← sum_map_add]
    refine sum_le_sum fun m hm => functionCost_add_bodyCost (hends.child ?_)
    rw [stmtChildren, hkind]
    exact mem_of_mem_filter hm
  rw [sum_bodyCost]
  simp only [StmtKind.spans, RecordDecl.spans, StmtKind.repeatedTypeParams, StmtKind.exprs,
    stmtParts, hkind, marksIn_cons, marksIn_append] at htotal
  simp only [registerCost, nameCost, partsCost, functionCost, methodsOf, hkind]
  omega

lemma registerCost_le : A.registerCost id ≤ A.stmtTotal id := by
  have htotal := stmtTotal_of_kind hends rfl
  cases hkind : (A.env.program.stmt id).kind with
  | record kind decl => exact (le_add_right _ _).trans (registerCost_of_record hends hkind)
  | function decl =>
    have hregister : A.registerCost id = A.functionCost id := by
      simp [registerCost, nameCost, partsCost, hkind]
    exact hregister ▸ (le_add_right _ _).trans (functionCost_add_bodyCost hends)
  | enum decl =>
    rw [hkind] at htotal
    simp only [StmtKind.spans, EnumDecl.spans, marksIn_cons, marksIn_append] at htotal
    simp only [registerCost, nameCost, partsCost, functionCost, hkind]
    omega
  | typeAlias decl =>
    rw [hkind] at htotal
    simp only [StmtKind.spans] at htotal
    simp only [registerCost, nameCost, partsCost, functionCost, hkind]
    omega
  | _ => simp [registerCost, nameCost, partsCost, functionCost, hkind]

omit hends in
lemma register_add_le (h : A.registerCost id + k ≤ A.stmtTotal id) (s : State) :
    (if (s.declarations.lookup id).isSome then 0 else A.registerCost id) + k ≤ A.checkCost s id := by
  unfold checkCost
  split <;> omega

lemma plain_meets {kind : StmtKind}
    (hkind : (A.env.program.stmt id).kind = kind) (hplain : kind.declares = false)
    {x : Rule Unit} (hx : R.Costs k x)
    (hk : k ≤ A.d.marks (A.env.program.stmt id).span + A.d.marksIn kind.spans +
      (kind.exprs.map A.total).sum + (kind.children.map A.stmtTotal).sum) (w : A.World) :
    x.Meets R.contract w fun _ v => Spends A.d [] (A.checkCost w.1 id) w.1 v.1 := by
  have htotal := stmtTotal_of_kind hends hkind
  have hcost : A.registerCost id + k ≤ A.stmtTotal id := by
    unfold registerCost nameCost partsCost functionCost
    unfold stmtParts at htotal
    rw [hkind] at htotal ⊢
    cases kind with
    | function | record | enum | typeAlias => simp [declares] at hplain
    | _ =>
      dsimp only at htotal ⊢
      omega
  exact (hx w).mono fun _ _ hv => hv.le ((le_add_left _ _).trans (register_add_le hcost w.1))

omit hends in
lemma ensured_meets {f : Option SymbolId → Rule Unit} (h : A.registerCost id + k ≤ A.stmtTotal id)
    (hf : ∀ found, ∀ v : A.World, (∀ made ∈ found, (id, made) ∈ v.1.declarations) →
      (f found).Meets R.contract v fun _ u => Spends A.d [] k v.1 u.1) (w : A.World) :
    (ensureRegistered A.env.program id >>= f).Meets R.contract w fun _ v =>
      Spends A.d [] (A.checkCost w.1 id) w.1 v.1 := by
  refine (ensureRegistered_meets id w).bind fun found v hv => (hf found v hv.2).mono fun _ u hu => ?_
  exact (hv.1.trans hu).le (register_add_le h w.1)

lemma checkFunctionDecl_meets (hkind : (A.env.program.stmt id).kind = .function decl)
    (hexprs : ∀ e ∈ (function decl).exprs, R.exprs e)
    (hbody : ∀ c ∈ (function decl).children, R.stmts c) (w : A.World) :
    (checkFunctionDecl A.env id decl).Meets R.contract w fun _ v =>
      Spends A.d [] (A.checkCost w.1 id) w.1 v.1 := by
  have hregister : A.registerCost id = A.functionCost id := by
    simp [registerCost, nameCost, partsCost, hkind]
  refine ensured_meets (hregister ▸ functionCost_add_bodyCost hends) (fun found v hfound => ?_) w
  cases found with
  | none => exact (Spends.refl v.1).le (zero_le _)
  | some made => exact checkFunction_meets hkind hexprs hbody (hfound made rfl) none

lemma checkRecordDecl_meets
    {decl : RecordDecl} (hkind : (A.env.program.stmt id).kind = .record kind decl)
    (hmethods : ∀ m ∈ decl.methods, R.stmts m) (w : A.World) :
    (checkRecordDecl A.env id decl).Meets R.contract w fun _ v =>
      Spends A.d [] (A.checkCost w.1 id) w.1 v.1 := by
  refine ensured_meets (registerCost_of_record hends hkind) (fun found v _ => ?_) w
  cases found with
  | none => exact (Spends.refl v.1).le (zero_le _)
  | some owner =>
    have hwork : R.Costs (decl.methods.map A.bodyCost).sum
        (decl.methods.forM (checkMethod A.env owner)) :=
      .forM fun m hm => checkMethod_costs (hmethods m hm) owner
    exact Gives.has (inScope_typeParams hwork.gives le_rfl) v

lemma statement_meets (hexprs : ∀ e ∈ (A.env.program.stmt id).kind.exprs, R.exprs e)
    (hchildren : ∀ c ∈ A.env.program.stmtChildren id, R.stmts c) (w : A.World) :
    (statement A.env id).Meets R.contract w fun _ v =>
      Spends A.d [] (A.checkCost w.1 id) w.1 v.1 := by
  have hensured : (do let _ ← ensureRegistered A.env.program id : Rule Unit).Meets R.contract w
      fun _ v => Spends A.d [] (A.checkCost w.1 id) w.1 v.1 :=
    ensured_meets (k := 0) (registerCost_le hends) (fun _ v _ => costs_pure () 0 v) w
  unfold stmtChildren at hchildren
  unfold statement
  dsimp only
  cases hkind : (A.env.program.stmt id).kind with
  | bind decl =>
    rw [hkind] at hexprs
    refine plain_meets hends hkind rfl (checkLet_costs hexprs) ?_ w
    simp only [StmtKind.spans, StmtKind.exprs]
    omega
  | function decl =>
    rw [hkind] at hexprs hchildren
    exact checkFunctionDecl_meets hends hkind hexprs hchildren w
  | record kind decl =>
    rw [hkind] at hchildren
    exact checkRecordDecl_meets hends hkind hchildren w
  | enum decl | typeAlias decl => exact hensured
  | branch condition consequent alternative =>
    rw [hkind] at hexprs hchildren
    obtain ⟨hconsequent, halternative⟩ := forall_mem_append.mp hchildren
    have hcondition : R.exprs condition := hexprs condition (.head _)
    refine plain_meets hends hkind rfl (checkIf_costs hcondition hconsequent halternative) ?_ w
    simp only [StmtKind.exprs, StmtKind.children, map_singleton, sum_singleton]
    omega
  | whileLoop condition body =>
    rw [hkind] at hexprs hchildren
    have hcondition : R.exprs condition := hexprs condition (.head _)
    refine plain_meets hends hkind rfl
      ((checkCondition_costs hcondition).bind fun _ => checkBlock_costs hchildren) ?_ w
    simp only [StmtKind.exprs, StmtKind.children, map_singleton, sum_singleton]
    omega
  | forLoop binding iterable body =>
    rw [hkind] at hexprs hchildren
    have hiterable : R.exprs iterable := hexprs iterable (.head _)
    refine plain_meets hends hkind rfl (checkFor_costs hiterable hchildren binding) ?_ w
    simp only [StmtKind.spans, StmtKind.exprs, StmtKind.children, map_singleton,
      sum_singleton, marksIn_cons]
    omega
  | ret value =>
    rw [hkind] at hexprs
    refine plain_meets hends hkind rfl (checkReturn_costs hexprs) ?_ w
    simp only [StmtKind.exprs]
    omega
  | breakLoop | continueLoop =>
    exact plain_meets hends hkind rfl (costs_pure () 0) (zero_le _) w
  | cases subject arms =>
    rw [hkind] at hexprs hchildren
    have hsubject : R.exprs subject := hexprs subject (.head _)
    refine plain_meets hends hkind rfl (checkMatch_costs hsubject hchildren) ?_ w
    simp only [StmtKind.spans, StmtKind.exprs, StmtKind.children, map_singleton, sum_singleton]
    omega
  | expr value =>
    rw [hkind] at hexprs
    have hvalue : R.exprs value := hexprs value (.head _)
    refine plain_meets hends hkind rfl (visitOnly_costs hvalue) ?_ w
    simp only [StmtKind.exprs, map_singleton, sum_singleton]
    omega
  | block block =>
    rw [hkind] at hchildren
    refine plain_meets hends hkind rfl (checkBlock_costs hchildren) ?_ w
    simp only [StmtKind.children]
    omega

end Statements

end Audit.Reach

end StaticTyping
