import StaticTyping.Proofs.Inference.Progress

/-! Which types the rules find. To declare something finds none. To check a function finds the types of
the functions inside it, and then its own if it is not written. -/

namespace StaticTyping.Rule

open Multiset Program StmtKind Inference

variable {α : Type} {p : Program} {env : Env} {T : StmtId → Multiset StmtId} {decl : FunctionDecl}
  {K L : Multiset StmtId} {id : StmtId} {x : Rule α} {w : Inference p}

abbrev Finds (p : Program) (T : StmtId → Multiset StmtId) (K : Multiset StmtId) (x : Rule α) : Prop :=
  Steps.Has (inferring p T) (Inference.finding p) K x

lemma Finds.le (hx : Finds p T K x) (h : K ≤ L) : Finds p T L x :=
  fun w => (hx w).mono fun _ _ hv => finding_le hv h

lemma finds_pure (a : α) : Finds p T K (pure a : Rule α) := Finds.le (.pure a) (zero_le K)

lemma perform_stays (action : Action α) (h : action.Withholding) (w : Inference p) :
    (perform action).Meets (inferring p T) w fun _ v => w.Stays v :=
  ⟨allows_of_withholding h w, fun _ _ hv => .of_step h hv.1 hv.2⟩

lemma Silent.stays (hx : Silent True [] x) (w : Inference p) :
    x.Meets (inferring p T) w fun _ v => w.Stays v := by
  refine Steps.Uses.meets (I := w.Stays) (fun request u hrequest hu => ?_) hx ⟨.of_same rfl rfl, rfl⟩
  cases request with
  | act action =>
    have hwith : action.Withholding := (Action.Common.of_silent hrequest.1).withholding
    exact ⟨allows_of_withholding hwith u, fun _ _ hv => hu.trans (.of_step hwith hv.1 hv.2)⟩
  | expr | stmt => exact hrequest.elim
  | expand => exact ⟨hrequest, fun _ _ hv => hu.trans hv⟩

/-- Nothing is declared or set by the pieces, which is no effect where it is none that nothing is found. -/
lemma inferring_pieces {N : Type} [AddMonoid N] {E : Effect N (Inference p)}
    (hE : ∀ {w v}, w.Stays v → E.does 0 w v) : Pieces (inferring p T) E := by
  have hact {α : Type} (action : Action α) (h : action.Withholding) :
      Steps.Has (inferring p T) E 0 (perform action) :=
    fun w => (perform_stays action h w).mono fun _ _ => hE
  refine .of_acts (fun hx w => (hx.stays w).mono fun _ _ => hE)
    (fun symbol _ => hact (.allocate symbol) trivial)
    (fun name id => hact (.declareValue name id) trivial)
    (fun name id => hact (.declareType name id) trivial) fun hx => ?_
  exact (hact .pushScope trivial).after fun _ => hx.before fun _ => (hact .popScope trivial).andPure

def staying (p : Program) : Effect ℕ (Inference p) where
  does _ := Stays
  zero _ := ⟨.of_same rfl rfl, rfl⟩
  add := Stays.trans

lemma stays_pieces : Pieces (inferring p T) (staying p) := inferring_pieces fun h => h

def findWalk (p : Program) (T : StmtId → Multiset StmtId) : Walk (inferring p T) (finding p) where
  exprs := p.ExprEnds
  stmts _ := True
  expr _ := 0
  stmt := T
  pieces := inferring_pieces Stays.finding
  visit _ h := fun _ => ⟨h, fun _ _ hv => hv.finding⟩
  visitStmt _ := fun _ => ⟨trivial, fun _ _ hv => hv⟩

lemma perform_finds (action : Action α) (h : action.Withholding) : Finds p T 0 (perform action) :=
  fun w => (perform_stays action h w).mono fun _ _ hv => hv.finding

lemma finds_encloses : Encloses (inferring p T) (finding p) := fun declared _ _ hx =>
  (perform_finds (.enterFunction declared) trivial).after fun _ =>
    hx.before fun _ => perform_finds .leaveFunction trivial

section Declarations

lemma declaredSymbol_stays (id : StmtId) (w : Inference p) :
    (perform (.declaredSymbol id)).Meets (inferring p T) w fun found v =>
      w.Stays v ∧ v.state.declarations.lookup id = found := by
  refine ⟨trivial, fun found v hv => ?_⟩
  have hstays : w.Stays v := .of_step (by trivial) hv.1 hv.2
  refine ⟨hstays, ?_⟩
  rw [hstays.withholds.declarations]
  exact congrArg Prod.fst hv.1

lemma finds_standing : Standing (inferring p T) (finding p) (Stands p) where
  found id w := (declaredSymbol_stays id w).mono fun _ _ hv =>
    ⟨hv.1.finding, fun _ hmade h => ⟨h, hv.2.trans hmade⟩⟩
  keeps hwv hstands h := hwv.2 _ _ (hstands h)

lemma functionHeader_result (h : decl.result = none) (w : Inference p) :
    (functionHeader decl).Meets (inferring p T) w fun header _ => header.2 = none := by
  unfold functionHeader inScope
  rw [h]
  refine (perform_stays .pushScope trivial w).bind fun _ w _ => ?_
  refine .bind (P := fun header _ => header.2 = none) ?_ fun header w hheader => ?_
  · refine (stays_pieces.declareTypeParams (fun _ _ => not_false) w).bind fun _ w _ => ?_
    exact (stays_pieces.paramInfos false decl.params w).bind fun _ _ _ => rfl
  · exact (perform_stays .popScope trivial w).bind fun _ _ _ => hheader

section

variable (hkind : (p.stmt id).kind = .function decl)

include hkind

lemma noteFunction_stands
    (hundeclared : w.state.declarations.lookup id = none) {params : List ParamInfo} {result : Option Ty}
    (hresult : decl.result = none → result = none) : Steps.Meets (inferring p T) (do
      let made ← perform (.allocate {
        name := decl.name.name, kind := .function, span := decl.name.span
        isPublic := decl.isPublic, typeParams := decl.typeParams.map (·.name), params
        ty := result.map (.fn (params.map (·.ty)) ·) })
      perform (.noteDeclaration id made)
      return made) w fun made v => (finding p).does 0 w v ∧ Stands p id made v := by
  refine ⟨trivial, fun made u hmade => ?_⟩
  have htakes (h : p.Inferred id) : u.Takes id made := by
    obtain ⟨decl', hkind', hnone⟩ := h
    obtain rfl : decl = decl' := function.inj (hkind.symm.trans hkind')
    refine takes_allocated hmade.1 hundeclared rfl ?_
    rw [hresult hnone]
    rfl
  refine ⟨htakes, fun _ v hv => ?_⟩
  have hallocated : w.Stays u := .of_step (by trivial) hmade.1 hmade.2
  obtain ⟨hnoted, hstands⟩ := stands_noted hv.1 hv.2 htakes
  exact ⟨(finding p).after hallocated.finding hnoted, hstands⟩

lemma functionSymbol_stands (w : Inference p) :
    (functionSymbol id decl).Meets (inferring p T) w fun made v =>
      (finding p).does 0 w v ∧ Stands p id made v := by
  refine (declaredSymbol_stays id w).bind fun found u hu => ?_
  obtain ⟨hstays, hlookup⟩ := hu
  cases found with
  | some known => exact ⟨hstays.finding, fun h => ⟨h, hlookup⟩⟩
  | none =>
    have hheader : (functionHeader decl).Meets (inferring p T) u fun header v =>
        u.Stays v ∧ (decl.result = none → header.2 = none) := by
      have hidle : (functionHeader decl).Meets (inferring p T) u fun _ v => u.Stays v :=
        stays_pieces.functionHeader (fun _ _ => not_false) u
      by_cases hresult : decl.result = none
      · refine (hidle.and (functionHeader_result hresult u)).mono ?_
        exact fun _ _ h => ⟨h.1, fun _ => h.2⟩
      · exact hidle.mono fun _ _ h => ⟨h, fun h' => absurd h' hresult⟩
    refine hheader.bind fun header v hv => ?_
    have hundeclared : v.state.declarations.lookup id = none :=
      hv.1.withholds.declarations.symm ▸ hlookup
    refine (noteFunction_stands hkind hundeclared hv.2).mono fun made t ht => ?_
    exact ⟨(finding p).after (hstays.trans hv.1).finding ht.1, ht.2⟩

end

lemma finds_declarative (id : StmtId) :
    Declarative (inferring p T) (finding p) (Stands p) (fun _ => True) p id where
  symbol decl hkind := functionSymbol_stands hkind
  name := by
    have hnote (made : SymbolId) (htype : p.isType id) :
        Finds p T 0 (perform (.noteDeclaration id made)) := fun w =>
      have hnot (h : p.Inferred id) : w.Takes id made := absurd h (p.not_inferred_of_isType htype)
      ⟨hnot, fun _ _ hv => (stands_noted hv.1 hv.2 hnot).1⟩
    have hname : Finds p T 0 (registerTypeName p id) := by
      simpa using (findWalk p T).pieces.registerTypeName hnote
    exact fun w => (hname w).mono fun _ _ hv => ⟨hv, fun _ _ => trivial⟩
  populate {made} _ := by
    simpa using (findWalk p T).pieces.populateType (c := fun _ => 0) (fun _ _ => not_false)
      (fun members => perform_finds (.setMembers made members) trivial)
      (fun _ _ variants => perform_finds (.setVariants made variants) trivial)
      (fun _ _ _ hkind w => (functionSymbol_stands hkind w).mono fun _ _ h => h.1)
      (fun _ _ => (findWalk p T).pieces.silent (expandDeclared_does made).silent)
  typed := by
    rintro made hother - w ⟨decl, hkind, -⟩
    exact absurd hkind (hother decl)

end Declarations

section Functions

lemma fillFunctionType_finds {sym : SymbolId} (receiver : Option SymbolId) (ty : Ty)
    (hawaits : w.state.Awaits p id sym) :
    (fillFunctionType sym receiver ty).Meets (inferring p T) w fun _ v =>
      (finding p).does {id} w v := by
  refine ⟨⟨id, hawaits⟩, fun _ u hu => ?_⟩
  obtain ⟨hstep, f, hf, hfound⟩ := hu
  obtain rfl : id = f := w.distinct hawaits hf
  have hstate : ((Action.setType sym ty).step w.state).2 = u.state := congrArg Prod.snd hstep
  have hset : (finding p).does {id} w u := by
    refine ⟨hfound.le, fun g other hg => ⟨hg.inferred, ?_⟩⟩
    rw [← hstate]
    exact hg.lookup
  cases receiver with
  | none => exact hset
  | some owner =>
    refine (perform_stays (.retypeMethod owner sym ty) trivial u).mono fun _ v hv => ?_
    simpa using (finding p).add hset hv.finding

lemma checkFunction_finds (hkind : (env.program.stmt id).kind = .function decl)
    (hexprs : ∀ e ∈ (env.program.stmt id).kind.exprs, env.program.ExprEnds e) {sym : SymbolId}
    (receiver : Option SymbolId) {w : Inference env.program} (hsym : Stands env.program id sym w) :
    (checkFunction env sym decl receiver).Meets (inferring env.program T) w fun _ v =>
      (finding env.program).does ({id} + (decl.body.statements.map T).sum) w v := by
  have hheld : ∀ e ∈ (function decl).exprs, env.program.ExprEnds e := hkind ▸ hexprs
  have hscope : Finds env.program T (decl.body.statements.map T).sum
      (functionScope env sym decl receiver) := by
    simpa [findWalk, children] using (findWalk env.program T).functionScope hheld
      ((findWalk env.program T).checkBody finds_encloses fun _ _ => trivial) sym receiver
  refine ((findWalk env.program T).pieces.scope hscope w).bind fun found u hu => ?_
  dsimp only
  split
  · exact finding_le hu (le_add_left _ _)
  · rename_i hresult
    have hinferred : env.program.Inferred id := ⟨decl, hkind, by simpa using hresult⟩
    refine (fillFunctionType_finds receiver _ (hu.2 id sym (hsym hinferred))).mono fun _ v hv => ?_
    rw [add_comm]
    exact (finding env.program).add hu hv

/-- A statement finds what is found in the functions that it declares and in the statements inside it. -/
lemma statement_finds (hT : ∀ id, T id = {id} + ((env.program.stmtParts id).map T).sum)
    (hexprs : ∀ e ∈ (env.program.stmt id).kind.exprs, env.program.ExprEnds e)
    (hmethods : ∀ m ∈ env.program.stmtChildren id, ∀ e ∈ (env.program.stmt m).kind.exprs,
      env.program.ExprEnds e) : Finds env.program T (T id) (statement env id) := by
  let g (m : StmtId) : Multiset StmtId := if env.program.isFunction m then T m else 0
  have hle : (findWalk env.program T).total g env.program id ≤ T id := by
    rw [hT id]
    unfold Walk.total stmtParts
    cases hkind : (env.program.stmt id).kind with
    | function decl => simp [g, isFunction, hkind, hT id, stmtParts]
    | record kind decl => simp [g, List.sum_map_ite, le_cons_self]
    | _ => simp [findWalk, le_cons_self]
  refine .le ((findWalk env.program T).statement ((findWalk env.program T).plainStatement
    (fun _ ty => perform_finds (.noteReturn ty) trivial) (fun _ _ _ name ty hx => ?_) hexprs
      fun _ _ => trivial)
    finds_standing (fun _ => finds_declarative id) ?_ (fun _ => finds_pure ()) (finds_pure ())) hle
  · exact (findWalk env.program T).pieces.scope
      ((perform_finds (.narrow name ty) trivial).after fun _ => hx)
  · intro _ m decl hm hkind made receiver v hstands _
    have hheld : ∀ e ∈ (env.program.stmt m).kind.exprs, env.program.ExprEnds e := by
      rcases hm with rfl | hm
      · exact hexprs
      · exact hmethods m (mem_stmtChildren_of_mem_methodsOf hm)
    have hg : g m = {m} + (decl.body.statements.map T).sum := by
      simp [g, isFunction, hkind, hT m, stmtParts, children]
    rw [hg]
    exact checkFunction_finds hkind hheld receiver hstands

end Functions

lemma program_finds (imports : List Ident) :
    Finds env.program T (env.program.items.map T).sum (program env imports) :=
  (findWalk env.program T).program finds_declarative (fun _ _ => trivial) imports

end StaticTyping.Rule
