import StaticTyping.Proofs.Distinct.Resolution

/-! What it costs to register declarations. In the scope of a declaration only type parameters that
repeat a name are reported; the fields and the methods of a record end up under different names. -/

namespace StaticTyping

open Rule TypeExpr Diagnostic Steps State SymbolTable Ident List Nat
open StaticTyping.Symbol StaticTyping.Action

variable {declared : Symbol}

lemma StmtKind.tidy_typeSymbol {kind : StmtKind}
    (h : kind.typeSymbol? = some declared) : declared.Tidy := by
  cases kind with
  | record | enum | typeAlias =>
    obtain rfl := Option.some.inj h
    exact .of_empty rfl rfl
  | _ => simp [typeSymbol?] at h

variable {decl : FunctionDecl} {id : StmtId}

namespace Audit.Reach

variable {A : Audit} {R : A.Reach} {α : Type} {k : ℕ} {span : Span} {x : Rule α} {Q : α → Prop}

lemma perform_spends (action : Action α) (w : A.World) (htidy : action.Tidy A.env.program w.1) :
    (perform action).Meets R.contract w fun a v =>
      a = (action.step w.1).1 ∧ v.1 = (action.step w.1).2 ∧
        Spends A.d [] (action.price A.d) w.1 v.1 := by
  refine (perform_meets action w htidy).mono fun a v hv => ?_
  have hstep := Spends.step (d := A.d) action w.1
  rw [hv] at hstep ⊢
  exact ⟨rfl, rfl, hstep⟩

section Scopes

lemma inScope_meets {w : A.World}
    (hx : ∀ v : A.World, v.1.scopes.inner = {} → v.1.declarations = w.1.declarations →
      x.Meets R.contract v fun a u => Spends A.d [] k v.1 u.1 ∧ Q a) :
    (inScope x).Meets R.contract w fun a v => Spends A.d [] k w.1 v.1 ∧ Q a := by
  refine (perform_spends .pushScope w trivial).bind ?_
  rintro _ v ⟨-, hpushed, hv⟩
  refine (hx v (by rw [hpushed]; rfl) (by rw [hpushed]; rfl)).bind fun a u hu =>
    (perform_spends .popScope u trivial).bind ?_
  rintro _ t ⟨-, -, ht⟩
  exact ⟨((hv.trans hu.1).trans ht).le (by simp [Action.price]), hu.2⟩

lemma inScope_costs (hx : R.Costs k x) : R.Costs k (inScope x) :=
  Gives.has fun _ => inScope_meets fun v _ _ => hx.gives v

lemma declareValue_costs (name : String) (id : SymbolId) :
    R.Costs (A.d.charge (some .duplicateSymbol) span) (declareValue name id span) := by
  refine .after (perform_costs (.declareValue name id) fun _ => trivial) fun found => ?_
  cases found with
  | none => exact costs_pure _ _
  | some existing => exact costs_of_symbol fun _ _ => report_costs .duplicateSymbol rfl

lemma allocate_costs {symbol : Symbol} (hty : symbol.ty ≠ none) (hparams : symbol.params = [])
    (hmembers : symbol.members = []) : R.Costs 0 (perform (.allocate symbol)) := by
  obtain ⟨ty, hty⟩ := Option.ne_none_iff_exists'.mp hty
  have hlatent : symbol.latent A.d = 0 := latent_of_ty hty
  exact (perform_costs (.allocate symbol) fun _ => .of_empty hparams hmembers).le hlatent.le

lemma introduce_costs {symbol : Symbol} (hty : symbol.ty ≠ none) (hparams : symbol.params = [])
    (hmembers : symbol.members = []) :
    R.Costs (A.d.charge (some .duplicateSymbol) symbol.span) (introduce symbol) :=
  (allocate_costs hty hparams hmembers).after fun _ => declareValue_costs _ _

end Scopes

section TypeParams

lemma ite_zero_le (c : Prop) [Decidable c] (n : ℕ) : (if c then 0 else n) ≤ n := by
  split
  · exact zero_le n
  · exact le_rfl

/-- A type is reported only where its scope has the name, and then no other name is declared. -/
lemma declareType_meets (name : String) (id : SymbolId) (w : A.World) :
    (declareType name id span).Meets R.contract w fun _ v =>
      Spends A.d [] (if w.1.scopes.inner.types.lookup name = none then 0 else A.d.marks span)
        w.1 v.1 ∧ v.1.symbols = w.1.symbols ∧ v.1.scopes.inner.values = w.1.scopes.inner.values ∧
      ∀ other ≠ name, w.1.scopes.inner.types.lookup other = none →
        v.1.scopes.inner.types.lookup other = none := by
  refine (perform_spends (.declareType name id) w trivial).bind ?_
  rintro found v ⟨hfound, hstate, hspends⟩
  cases hlookup : w.1.scopes.inner.types.lookup name with
  | none =>
    simp only [step, ScopeStack.declareType, hlookup] at hfound hstate
    subst hfound
    refine ⟨hspends, by rw [hstate], by rw [hstate], fun other hother hnone => ?_⟩
    rw [hstate, lookup_cons, beq_false_of_ne hother]
    exact hnone
  | some existing =>
    simp only [step, ScopeStack.declareType, hlookup] at hfound hstate
    subst hfound
    refine (symbol_meets existing v).bind ?_
    rintro _ _ ⟨rfl, rfl⟩
    refine (perform_spends (.report _) _ (by exact trivial)).mono ?_
    rintro _ u ⟨-, hreported, hu⟩
    refine ⟨(hspends.trans hu).le ?_, ?_⟩
    · exact (zero_add _).le.trans (price_le_marks (.typeRedeclared _ _) span)
    · rw [hreported, hstate]
      exact ⟨rfl, rfl, fun _ _ h => h⟩

lemma declareTypeParam_meets (param : Ident) {seen : List String} (w : A.World)
    (hseen : ∀ name ∉ seen, w.1.scopes.inner.types.lookup name = none) :
    (do
      let id ← perform (.allocate {
        name := param.name, kind := .typeParam, span := param.span, ty := some (.param param.name) })
      declareType param.name id param.span : Rule Unit).Meets R.contract w fun _ v =>
        Spends A.d [] (if param.name ∈ seen then A.d.marks param.span else 0) w.1 v.1 ∧
        v.1.scopes.inner.values = w.1.scopes.inner.values ∧
        ∀ other ≠ param.name, other ∉ seen → v.1.scopes.inner.types.lookup other = none := by
  refine (perform_spends (.allocate _) w (by exact .of_empty rfl rfl)).bind ?_
  rintro id v ⟨-, hstate, hv⟩
  have hscopes : v.1.scopes = w.1.scopes := by
    rw [hstate]
    rfl
  refine (declareType_meets param.name id v).mono ?_
  rintro _ u ⟨hu, -, hvalues, htypes⟩
  rw [hscopes] at hu hvalues htypes
  refine ⟨(hv.trans hu).le ?_, hvalues, fun other hother hnew => htypes other hother (hseen other hnew)⟩
  by_cases hmem : param.name ∈ seen
  · simpa [hmem, Action.price, latent] using ite_zero_le _ (A.d.marks param.span)
  · simp [Action.price, latent, hseen param.name hmem]

/-- Where only names in `seen` are declared, just those type parameters are reported that repeat a
name. -/
lemma declareTypeParams_meets (params : List Ident) (seen : List String) (w : A.World)
    (hseen : ∀ name ∉ seen, w.1.scopes.inner.types.lookup name = none) :
    (declareTypeParams params).Meets R.contract w fun _ v =>
      Spends A.d [] (A.d.marksIn (Ident.repeats seen params)) w.1 v.1 ∧
      v.1.scopes.inner.values = w.1.scopes.inner.values := by
  induction params generalizing seen w with
  | nil => exact ⟨.refl _, rfl⟩
  | cons param rest ih =>
    refine .bind (declareTypeParam_meets param w hseen) ?_
    rintro _ v ⟨hspends, hvalues, htypes⟩
    rw [Ident.repeats]
    split
    · rename_i hmem
      rw [if_pos hmem] at hspends
      refine (ih seen v fun name hname => htypes name (fun h => hname (h ▸ hmem)) hname).mono ?_
      rintro _ u ⟨hu, hvalues'⟩
      exact ⟨hspends.trans hu, hvalues'.trans hvalues⟩
    · rename_i hmem
      rw [if_neg hmem] at hspends
      have hnext : ∀ name ∉ param.name :: seen, v.1.scopes.inner.types.lookup name = none := by
        intro name hname
        rw [mem_cons, not_or] at hname
        exact htypes name hname.1 hname.2
      refine (ih _ v hnext).mono ?_
      rintro _ u ⟨hu, hvalues'⟩
      exact ⟨(hspends.trans hu).le (by rw [zero_add]), hvalues'.trans hvalues⟩

lemma declareTypeParams_fresh (params : List Ident) (w : A.World) (hw : w.1.scopes.inner = {}) :
    (declareTypeParams params).Meets R.contract w fun _ v =>
      Spends A.d [] (A.d.marksIn (Ident.repeats [] params)) w.1 v.1 ∧
      v.1.scopes.inner.values = [] := by
  have hmeets := declareTypeParams_meets (R := R) params [] w fun name _ => by simp [hw]
  simpa [hw] using hmeets

lemma inScope_typeParams {params : List Ident} {l : ℕ} (hx : R.Gives l x Q)
    (h : A.d.marksIn (Ident.repeats [] params) + l ≤ k) :
    R.Gives k (inScope do declareTypeParams params; x) Q := by
  intro w
  refine inScope_meets fun t ht _ => (declareTypeParams_fresh params t ht).bind fun _ v hv => ?_
  exact (hx v).mono fun _ _ hu => ⟨(hv.1.trans hu.1).le h, hu.2⟩

end TypeParams

section Functions

variable {id : StmtId}

/-- The rule costs `k` at most, and its answer is a symbol of the declaration. -/
def Finds (R : A.Reach) (id : StmtId) (k : ℕ) (x : Rule SymbolId) : Prop :=
  ∀ w, x.Meets R.contract w fun made v =>
    Spends A.d [] k w.1 v.1 ∧ (id, made) ∈ v.1.declarations

lemma Finds.costs {x : Rule SymbolId} (h : R.Finds id k x) : R.Costs k x :=
  fun w => (h w).mono fun _ _ hv => hv.1

lemma functionHeader_gives (decl : FunctionDecl) :
    R.Gives (A.d.marksIn (Ident.repeats [] decl.typeParams) +
        A.d.marksIn (decl.types.flatMap spans)) (functionHeader decl) fun header =>
      header.1.map (fun info => (info.name, info.span)) =
        (decl.params.filter (·.kind != .separator)).map fun decl => (decl.name, decl.span) := by
  have hsum : A.d.marksIn (decl.types.flatMap spans) =
      A.d.marksIn ((decl.params.filterMap (·.type)).flatMap spans) +
        A.d.marksIn (decl.result.toList.flatMap spans) := by
    rw [FunctionDecl.types, flatMap_append, marksIn_append]
  rw [hsum]
  refine inScope_typeParams ?_ le_rfl
  refine (paramInfos_gives false decl.params).audited.bind fun params hparams => ?_
  exact Has.bindGives (l := 0) (resolveOptional_does decl.result).costs fun _ => .pure hparams

variable (hkind : (A.env.program.stmt id).kind = .function decl)

include hkind

/-- A function has parameters under different names, and they are declared there. -/
lemma functionSymbol_finds : R.Finds id (A.d.marksIn (Ident.repeats [] decl.typeParams) +
      A.d.marksIn (decl.types.flatMap spans)) (functionSymbol id decl) := by
  intro w
  refine (perform_spends (.declaredSymbol id) w trivial).bind ?_
  rintro found v ⟨hfound, hstate, -⟩
  obtain rfl : v = w := Subtype.ext hstate
  cases found with
  | some known =>
    exact ⟨(Spends.refl v.1).le (zero_le _), mem_of_lookup_eq_some hfound.symm⟩
  | none =>
    refine (functionHeader_gives decl v).bind ?_
    rintro ⟨params, result⟩ u ⟨hu, hparams⟩
    have hnames : params.map (·.name) =
        (decl.params.filter (·.kind != .separator)).map (·.name) := by
      simpa [Function.comp_def] using congrArg (map Prod.fst) hparams
    have hspans : params.map (·.span) =
        (decl.params.filter (·.kind != .separator)).map (·.span) := by
      simpa [Function.comp_def] using congrArg (map Prod.snd) hparams
    have hnodup : (params.map (·.name)).Nodup := hnames ▸ A.params id decl hkind
    refine (perform_spends (.allocate _) u (by exact ⟨hnodup, nodup_nil⟩)).bind ?_
    rintro made t ⟨rfl, hallocated, ht⟩
    have hstands : t.1.StandsFor A.env.program id ⟨u.1.symbols.size⟩ := by
      rw [hallocated]
      refine ⟨?_, fun other hother => ?_⟩
      · simp [step, alloc, SymbolTable.size]
      · obtain rfl : decl = other := StmtKind.function.inj (hkind.symm.trans hother)
        simp only [step, get_alloc_new, hspans]
        exact filter_sublist.map _
    refine (perform_spends (.noteDeclaration id _) t (by exact hstands)).bind ?_
    rintro _ z ⟨-, hnoted, hz⟩
    refine ⟨((hu.trans ht).trans hz).le ?_, ?_⟩
    · simp [Action.price, latent_of_target]
    · rw [hnoted]
      exact .head _

lemma functionCost_eq : A.functionCost id = A.d.marksIn (Ident.repeats [] decl.typeParams) +
      A.d.marksIn (decl.types.flatMap spans) + A.d.marks decl.name.span := by
  simp only [functionCost, hkind]

lemma registerFunction_finds : R.Finds id (A.functionCost id) (registerFunction id decl) := by
  intro w
  refine (functionSymbol_finds hkind w).bind fun made v hv => ?_
  refine .bind (declareValue_costs decl.name.name made v) fun _ u hu => ?_
  refine ⟨(hv.1.trans hu).le ?_, hu.declarations hv.2⟩
  rw [functionCost_eq hkind]
  exact Nat.add_le_add_left (A.d.charge_le_marks _ _) _

omit hkind

lemma registerIfFunction_costs (id : StmtId) :
    R.Costs (A.functionCost id) (registerIfFunction A.env.program id) := by
  unfold registerIfFunction
  cases hkind : (A.env.program.stmt id).kind with
  | function decl => exact (registerFunction_finds hkind).costs.andPure
  | _ => exact costs_pure () _

end Functions

section Records

lemma methodMembers_gives (owner : String) (seen : List String) (ids : List StmtId) :
    R.Gives ((ids.filter A.env.program.isFunction).map A.functionCost).sum
      (methodMembers A.env.program owner seen ids) fun members =>
        Unseen seen (members.map (·.name)) := by
  induction ids generalizing seen with
  | nil => exact .pure (.nil seen)
  | cons id rest ih =>
    unfold methodMembers
    cases hkind : (A.env.program.stmt id).kind with
    | function decl =>
      have hfunction : A.env.program.isFunction id := by simp [Program.isFunction, hkind]
      rw [filter_cons_of_pos hfunction, map_cons, sum_cons, functionCost_eq hkind,
        add_assoc (_ + _)]
      refine (functionSymbol_finds hkind).costs.bindGives fun method => ?_
      split
      · have hreport := A.d.charge_le_marks (some .duplicateSymbol) decl.name.span
        exact Has.bindGives ((report_costs .duplicateSymbol rfl).le hreport) fun _ => ih seen
      · rename_i hnew
        refine gives_of_symbol fun declared _ => ?_
        refine .le ((ih _).andPure fun others hothers => ?_) (le_add_left _ _)
        exact hothers.cons (by simpa using hnew)
    | _ =>
      rw [filter_cons_of_neg (by simp [Program.isFunction, hkind])]
      exact ih seen

lemma populateRecord_costs {kind : RecordKind} {decl : RecordDecl}
    (hkind : (A.env.program.stmt id).kind = .record kind decl) (made : SymbolId) :
    R.Costs (A.partsCost id) (populateRecord A.env.program made decl) := by
  have hmethods : A.env.program.methodsOf id = decl.methods.filter A.env.program.isFunction := by
    simp only [Program.methodsOf, hkind]
  have hcost : A.partsCost id = A.d.marksIn (Ident.repeats [] decl.typeParams) +
      ((A.d.marksIn (decl.fields.map (·.span)) +
        A.d.marksIn ((decl.fields.map (·.type)).flatMap spans)) +
        ((decl.methods.filter A.env.program.isFunction).map A.functionCost).sum) := by
    simp only [partsCost, hkind, hmethods]
    omega
  rw [hcost]
  refine costs_of_symbol fun owner _ => ?_
  refine Gives.bindHas (l := 0) (P := fun members => (members.map Member.name).Nodup)
    (inScope_typeParams ?_ le_rfl) fun members hmembers =>
      perform_costs (.setMembers made members) fun _ => hmembers
  refine (fieldMembers_gives owner.name [] decl.fields).audited.bind fun fields hfields => ?_
  refine (methodMembers_gives owner.name _ decl.methods).andPure fun methods hnew => ?_
  rw [map_append, nodup_append]
  refine ⟨hfields.nodup, hnew.nodup, fun name hfield other hmethod heq => ?_⟩
  exact hnew.new other hmethod (heq ▸ hfield)

end Records

section Types

lemma map_fst_zip_sublist {β γ : Type} (xs : List β) (ys : List γ) :
    ((xs.zip ys).map (·.1)).Sublist xs := by
  induction xs generalizing ys with
  | nil => exact .slnil
  | cons x xs ih =>
    cases ys with
    | nil => exact nil_sublist _
    | cons y ys => exact (ih ys).cons_cons x

lemma declareVariants_costs (made : SymbolId) (decl : EnumDecl) (payloads : List (List Ty)) :
    R.Costs (A.d.marksIn (decl.variants.map (·.span)))
      ((decl.variants.zip payloads).mapM fun entry => do
        let variant ← perform (.allocate (variantSymbol made decl entry.1 entry.2))
        declareValue entry.1.name variant entry.1.span
        return variant) := by
  have hsublist := (map_fst_zip_sublist decl.variants payloads).map VariantDecl.span
  refine .le ?_ (A.d.marksIn_le_of_sublist hsublist)
  rw [map_map, marksIn_map]
  refine .mapM fun entry _ => (allocate_costs ?_ rfl rfl).after fun variant => ?_
  · simp [variantSymbol]
  · exact ((declareValue_costs _ _).le (A.d.charge_le_marks _ _)).andPure

lemma populateEnum_costs {decl : EnumDecl} (hkind : (A.env.program.stmt id).kind = .enum decl)
    (made : SymbolId) : R.Costs (A.partsCost id) (populateEnum made decl) := by
  have hrepeats := A.d.marksIn_le_of_sublist (repeats_sublist [] decl.typeParams)
  have hpayloads : R.Costs (A.d.marksIn ((decl.variants.flatMap (·.payload)).flatMap spans))
      (decl.variants.mapM fun variant => variant.payload.mapM resolveType) := by
    rw [flatMap_assoc, marksIn_flatMap]
    refine .mapM fun variant _ => ?_
    rw [marksIn_flatMap]
    exact .mapM fun t _ => (resolveType_does t).costs
  have hscope : R.Costs (A.d.marksIn (decl.typeParams.map (·.span)) +
      A.d.marksIn ((decl.variants.flatMap (·.payload)).flatMap spans)) (inScope do
        declareTypeParams decl.typeParams
        decl.variants.mapM fun variant => variant.payload.mapM resolveType) :=
    Gives.has (inScope_typeParams hpayloads.gives (Nat.add_le_add_right hrepeats _))
  refine (hscope.bind fun payloads => (declareVariants_costs made decl payloads).before fun variants =>
    perform_costs (.setVariants made variants) fun _ => trivial).le ?_
  simp only [partsCost, hkind]
  omega

lemma populateType_costs (id : StmtId) (made : SymbolId) :
    R.Costs (A.partsCost id) (populateType A.env.program id made) := by
  unfold populateType
  cases hkind : (A.env.program.stmt id).kind with
  | record kind decl => exact populateRecord_costs hkind made
  | enum decl => exact populateEnum_costs hkind made
  | typeAlias decl => exact (expandDeclared_does made).costs.le (zero_le _)
  | _ => exact costs_pure () _

lemma nameCost_eq (h : (A.env.program.stmt id).kind.typeSymbol? = some declared) :
    A.nameCost id = declared.latent A.d + A.d.marks declared.span := by
  unfold nameCost
  cases hkind : (A.env.program.stmt id).kind with
  | record | enum =>
    rw [hkind] at h
    obtain rfl := Option.some.inj h
    simp [latent]
  | typeAlias decl =>
    rw [hkind] at h
    obtain rfl := Option.some.inj h
    simp [latent, AliasDecl.spans, add_comm]
  | _ => simp [hkind, StmtKind.typeSymbol?] at h

lemma registerTypeName_meets (id : StmtId) (w : A.World) :
    (registerTypeName A.env.program id).Meets R.contract w fun found v =>
      Spends A.d [] (A.nameCost id) w.1 v.1 ∧ ∀ made ∈ found, (id, made) ∈ v.1.declarations := by
  unfold registerTypeName
  cases hsymbol : (A.env.program.stmt id).kind.typeSymbol? with
  | none => exact ⟨(Spends.refl w.1).le (zero_le _), by simp⟩
  | some declared =>
    refine (perform_spends (.allocate declared) w (StmtKind.tidy_typeSymbol hsymbol)).bind ?_
    rintro made v ⟨rfl, hallocated, hv⟩
    refine (declareType_meets declared.name _ v).bind ?_
    rintro _ u ⟨hu, hsame, -⟩
    have hstands : u.1.StandsFor A.env.program id ⟨w.1.symbols.size⟩ := by
      refine ⟨?_, fun decl hkind => ?_⟩
      · rw [hsame, hallocated]
        simp [step, alloc, SymbolTable.size]
      · simp [hkind, StmtKind.typeSymbol?] at hsymbol
    refine (perform_spends (.noteDeclaration id _) u (by exact hstands)).bind ?_
    rintro _ t ⟨-, hnoted, ht⟩
    refine ⟨((hv.trans hu).trans ht).le ?_, ?_⟩
    · rw [nameCost_eq hsymbol]
      exact Nat.add_le_add_left (ite_zero_le _ _) _
    · rintro _ ⟨⟩
      rw [hnoted]
      exact .head _

lemma registerTypeNames_gives (items : List StmtId) :
    R.Gives (items.map A.nameCost).sum (registerTypeNames A.env.program items) fun types =>
      (types.map (·.1)).Sublist items := by
  induction items with
  | nil => exact .pure .slnil
  | cons id rest ih =>
    have hname : R.Costs (A.nameCost id) (registerTypeName A.env.program id) :=
      fun w => (registerTypeName_meets id w).mono fun _ _ hv => hv.1
    refine hname.bindGives fun made => ih.andPure fun others hothers => ?_
    cases made with
    | none => exact hothers.cons id
    | some made => exact hothers.cons_cons id

end Types

section Registration

lemma registerDeclarations_costs (items : List StmtId) :
    R.Costs (items.map A.registerCost).sum (registerDeclarations A.env.program items) := by
  have hsum : (items.map A.registerCost).sum = (items.map A.nameCost).sum +
      ((items.map A.partsCost).sum + (items.map A.functionCost).sum) := by
    rw [← add_assoc, ← sum_map_add, ← sum_map_add]
    rfl
  rw [hsum]
  refine (registerTypeNames_gives items).bindHas fun types htypes => ?_
  have hparts : ((types.map (·.1)).map A.partsCost).sum ≤ (items.map A.partsCost).sum :=
    (htypes.map A.partsCost).sum_le_sum fun _ _ => zero_le _
  refine .bind (.le ?_ hparts) fun _ => .forM fun id _ => registerIfFunction_costs id
  rw [map_map]
  exact .forM fun entry _ => populateType_costs entry.1 entry.2

lemma ensureRegistered_meets (id : StmtId) (w : A.World) :
    (ensureRegistered A.env.program id).Meets R.contract w fun found v =>
      Spends A.d [] (if (w.1.declarations.lookup id).isSome then 0 else A.registerCost id)
        w.1 v.1 ∧ ∀ made ∈ found, (id, made) ∈ v.1.declarations := by
  refine (perform_spends (.declaredSymbol id) w trivial).bind ?_
  rintro found v ⟨hfound, hstate, -⟩
  obtain rfl : v = w := Subtype.ext hstate
  have hlookup : v.1.declarations.lookup id = found := hfound.symm
  rw [hlookup]
  cases found with
  | some known =>
    refine ⟨.refl v.1, ?_⟩
    rintro _ ⟨⟩
    exact mem_of_lookup_eq_some hlookup
  | none =>
    cases hkind : (A.env.program.stmt id).kind with
    | function decl =>
      refine (registerFunction_finds hkind v).bind fun made u hu => ⟨hu.1.le (le_add_left _ _), ?_⟩
      rintro _ ⟨⟩
      exact hu.2
    | _ =>
      refine (registerTypeName_meets id v).bind ?_
      rintro made u ⟨hu, hmade⟩
      cases made with
      | none => exact ⟨hu.le (by rw [registerCost, add_assoc]; exact le_add_right _ _), by simp⟩
      | some made =>
        refine .bind (populateType_costs id made u) fun _ t ht => ?_
        exact ⟨(hu.trans ht).le (le_add_right _ _), fun made' hmade' =>
          ht.declarations (hmade made' hmade')⟩

end Registration

end Audit.Reach

end StaticTyping
