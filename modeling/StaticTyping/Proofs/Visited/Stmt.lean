import StaticTyping.Proofs.Visited.Declaration

/-! What the rules for statements record, and what they leave of scopes and function contexts. A
record has all of its methods checked, because each of them has a symbol by then. -/

namespace StaticTyping

open StmtKind Program List

variable {decl : FunctionDecl} {id : StmtId} {S : Set StmtId}

namespace Outline

variable {p : Program} {K : Multiset ExprId} {a b : Outline}

lemma Does.of_keeps (h : a.Keeps b) (hrecorded : b.recorded = K + a.recorded) :
    Does p.Complete K a b := by
  have hscopes : a.scopes.Extends b.scopes := .of_keeps h.scopes
  have hstays : p.Complete a.declared → p.Complete b.declared := fun ha => by rwa [h.declared]
  exact ⟨⟨fun _ => hrecorded, hstays, h.declared.ge, h.contexts, hscopes.outer⟩, hscopes.inner⟩

lemma Does.while_declared (h : Does p.Complete K a b) (S : Set StmtId) :
    Does (fun declared => p.Complete declared ∧ S ⊆ declared) K a b where
  __ := h
  recorded ha := h.recorded ha.1
  stays ha := ⟨h.stays ha.1, ha.2.trans h.declared⟩

lemma Does.once_declared (h : Does (fun declared => p.Complete declared ∧ S ⊆ declared) K a b)
    (hS : p.Complete a.declared → S ⊆ a.declared) : Does p.Complete K a b where
  __ := h
  recorded ha := h.recorded ⟨ha, hS ha⟩
  stays ha := (h.stays ⟨ha, hS ha⟩).1

end Outline

namespace Rule

variable {α β : Type} {p : Program} {env : Env} {B : StmtId → Prop} {K : Multiset ExprId}

def checkWalk (p : Program) (B : StmtId → Prop) : Walk (checking p B) (doing p.Complete) where
  exprs := p.ExprEnds
  stmts := B
  expr := p.exprTree
  stmt := p.stmtTree
  pieces := checks_pieces
  visit _ h := fun _ => ⟨h, fun _ _ hv => .of_keeps hv.2 hv.1⟩
  visitStmt h := fun _ => ⟨h, fun _ _ hv => hv⟩

/-- A function that is entered is left again. -/
lemma checks_encloses : Encloses (checking p B) (doing p.Complete) := by
  intro declared _ _ hx w
  refine (perform_meets (.enterFunction declared) trivial w).bind ?_
  rintro _ _ ⟨rfl, -⟩
  refine (hx _).bind fun _ u hu => (perform_meets .leaveFunction trivial u).mono ?_
  rintro _ _ ⟨rfl, -⟩
  have hcontexts : u.contexts - 1 = w.contexts := by
    rw [hu.contexts]
    rfl
  exact { hu with contexts := hcontexts }

/-- Narrowing touches the scope of a branch only, which counts for nothing outside. -/
lemma checks_narrows : Narrows (checking p B) (doing p.Complete) := by
  intro K x name ty hx w
  refine (inScope_meets (P := fun _ _ => True) ?_).mono fun _ _ hv => hv.1
  refine (perform_meets (.narrow name ty) trivial _).bind ?_
  rintro _ u ⟨rfl, -⟩
  refine (hx _).mono fun _ v hv => ⟨?_, trivial⟩
  exact ⟨hv.recorded, hv.stays, hv.declared, hv.contexts, hv.outer⟩

lemma checkFunction_checks (hexprs : ∀ e ∈ (function decl).exprs, env.program.ExprEnds e)
    (hbody : ∀ c ∈ (function decl).children, B c) (id : SymbolId) (receiver : Option SymbolId) :
    Checks env.program B (((function decl).exprs.map env.program.exprTree).sum +
      ((function decl).children.map env.program.stmtTree).sum)
      (checkFunction env id decl receiver) := by
  have hwalk := (checkWalk env.program B).checkBody checks_encloses hbody
  refine (checkWalk env.program B).checkFunction hexprs hwalk fun ty => Registers.checks_zero ?_
  refine (perform_has (.setType id ty) trivial Outline.Registered.refl).after fun _ => ?_
  cases receiver with
  | none => exact .pure ()
  | some owner => exact perform_has (.retypeMethod owner id ty) trivial Outline.Registered.refl

section Methods

/-- Statements may be visited from which the way down ends, and with a statement those inside it. -/
structure StmtDescends (p : Program) (B : StmtId → Prop) : Prop where
  ends : ∀ id, B id → p.StmtEnds id
  child : ∀ a b, B a → b ∈ p.stmtChildren a → B b

lemma StmtDescends.function (h : StmtDescends p B) (hid : B id)
    (hkind : (p.stmt id).kind = .function decl) :
    p.stmtTree id = ((function decl).exprs.map p.exprTree).sum +
        ((function decl).children.map p.stmtTree).sum ∧
      (∀ e ∈ (function decl).exprs, p.ExprEnds e) ∧
      ∀ c ∈ (function decl).children, B c := by
  have htree := (h.ends id hid).stmtTree_eq
  have hexprs := (h.ends id hid).here
  have hchildren := fun c => h.child id c hid
  simp only [stmtParts, stmtChildren, hkind] at htree hexprs hchildren
  exact ⟨htree, hexprs, hchildren⟩

lemma checkMethod_does (h : StmtDescends env.program B) (hid : B id)
    (hS : env.program.isFunction id → id ∈ S) (owner : SymbolId) :
    Steps.Has (checking env.program B)
      (doing fun declared => env.program.Complete declared ∧ S ⊆ declared)
      (if env.program.isFunction id then env.program.stmtTree id else 0)
      (checkMethod env owner id) := by
  unfold checkMethod
  cases hkind : (env.program.stmt id).kind with
  | function decl =>
    have hfunction : env.program.isFunction id := by simp [isFunction, hkind]
    obtain ⟨htree, hexprs, hchildren⟩ := h.function hid hkind
    rw [if_pos hfunction]
    intro w
    refine (perform_meets (.declaredSymbol id) trivial w).bind ?_
    rintro found u ⟨rfl, htells⟩
    cases found with
    | none =>
      -- Without a symbol it is passed over, but then not all methods were declared.
      have hnot : ¬ S ⊆ u.declared := fun hsub => by simpa using htells.mpr (hsub (hS hfunction))
      have hrefl : Outline.Does (fun declared => env.program.Complete declared ∧ S ⊆ declared) 0 u u :=
        .refl u
      exact { hrefl with recorded := fun hready => absurd hready.2 hnot }
    | some method =>
      rw [htree]
      exact (checkFunction_checks hexprs hchildren method (some owner) u).mono fun _ _ hv =>
        hv.while_declared S
  | _ =>
    rw [if_neg (by simp [isFunction, hkind])]
    exact .pure ()

lemma methodsScope_does (h : StmtDescends env.program B) {decl : RecordDecl}
    (hmethods : ∀ m ∈ decl.methods, B m) (owner : SymbolId) :
    Steps.Has (checking env.program B) (doing fun declared => env.program.Complete declared ∧
        { m | m ∈ decl.methods.filter env.program.isFunction } ⊆ declared)
      ((decl.methods.filter env.program.isFunction).map env.program.stmtTree).sum (do
        declareTypeParams decl.typeParams
        decl.methods.forM (checkMethod env owner)) := by
  have hsum : ((decl.methods.filter env.program.isFunction).map env.program.stmtTree).sum =
      (decl.methods.map fun m =>
        if env.program.isFunction m then env.program.stmtTree m else 0).sum := by
    simp [List.sum_map_ite]
  rw [hsum]
  refine .after ?_ fun _ => .forM fun m hm => ?_
  · intro w
    exact (checks_pieces.declareTypeParams (fun _ _ => not_false) w).mono fun _ _ hv => hv.while_declared _
  · exact checkMethod_does h (hmethods m hm) (fun hfunction => mem_filter.mpr ⟨hm, hfunction⟩) owner

end Methods

lemma checkFunctionDecl_checks (hkind : (env.program.stmt id).kind = .function decl)
    (hexprs : ∀ e ∈ (function decl).exprs, env.program.ExprEnds e)
    (hbody : ∀ c ∈ (function decl).children, B c) :
    Checks env.program B (((function decl).exprs.map env.program.exprTree).sum +
      ((function decl).children.map env.program.stmtTree).sum)
      (checkFunctionDecl env id decl) := by
  intro w
  refine (ensureRegistered_meets id w).bind ?_
  rintro found u ⟨hu, hfound⟩
  have hsome := (hfound (.inl (by simp [isFunction, hkind]))).1
  obtain ⟨function, rfl⟩ := Option.isSome_iff_exists.mp hsome
  exact (checkFunction_checks hexprs hbody function none u).mono fun _ _ hv => hu.after hv

lemma checkRecordDecl_checks (h : StmtDescends env.program B) {kind : RecordKind} {decl : RecordDecl}
    (hkind : (env.program.stmt id).kind = .record kind decl) (hmethods : ∀ m ∈ decl.methods, B m) :
    Checks env.program B ((decl.methods.filter env.program.isFunction).map env.program.stmtTree).sum
      (checkRecordDecl env id decl) := by
  intro w
  refine (ensureRegistered_meets id w).bind ?_
  rintro found u ⟨hu, hfound⟩
  obtain ⟨hsome, hid⟩ := hfound (.inr (by simp [isType, hkind, typeSymbol?]))
  obtain ⟨owner, rfl⟩ := Option.isSome_iff_exists.mp hsome
  refine (inScope_does (methodsScope_does h hmethods owner) u).mono fun _ v hv => ?_
  -- The record is declared by now, and in complete declarations its methods are too.
  have hready : env.program.Complete u.declared →
      { m | m ∈ decl.methods.filter env.program.isFunction } ⊆ u.declared := by
    intro hcomplete m hm
    exact hcomplete id hid m (by simpa [methodsOf, hkind] using hm)
  exact hu.after (hv.once_declared hready)

/-- A statement records its own expressions and those of the statements inside it, each as often as
it stands there. -/
lemma statement_checks (h : StmtDescends env.program B)
    (hexprs : ∀ e ∈ (env.program.stmt id).kind.exprs, env.program.ExprEnds e)
    (hchildren : ∀ c ∈ env.program.stmtChildren id, B c) :
    Checks env.program B (((env.program.stmt id).kind.exprs.map env.program.exprTree).sum +
      ((env.program.stmtParts id).map env.program.stmtTree).sum) (statement env id) := by
  have hensure (id : StmtId) : Checks env.program B 0 (do let _ ← ensureRegistered env.program id) :=
    fun w => (ensureRegistered_meets id w).bind fun _ _ hv => hv.1
  unfold stmtChildren at hchildren
  by_cases hdeclares : (env.program.stmt id).kind.declares
  · unfold statement stmtParts
    dsimp only
    cases hkind : (env.program.stmt id).kind with
    | function decl =>
      rw [hkind] at hexprs hchildren
      exact checkFunctionDecl_checks hkind hexprs hchildren
    | record kind decl =>
      rw [hkind] at hchildren
      simpa [exprs] using checkRecordDecl_checks h hkind hchildren
    | enum decl => exact hensure id
    | typeAlias decl => exact hensure id
    | _ => simp [hkind, declares] at hdeclares
  · have hparts : env.program.stmtParts id = (env.program.stmt id).kind.children := by
      unfold stmtParts
      split
      · simp_all [declares]
      · rfl
    rw [hparts]
    exact (checkWalk env.program B).plainStatement
      (fun _ ty => perform_has (.noteReturn ty) trivial Outline.Does.refl)
      (fun _ => checks_narrows) hexprs hchildren (by simpa using hdeclares)

lemma program_checks (hitems : ∀ id ∈ env.program.items, B id) (imports : List Ident) :
    Checks env.program B (env.program.items.map env.program.stmtTree).sum (program env imports) := by
  refine .after (.forM_zero fun binding _ => checks_pieces.introduce _ (.plain rfl (by simp)) rfl) fun _ => ?_
  exact (registerDeclarations_checks env.program.items).after fun _ =>
    (checkWalk env.program B).visitStmts hitems

end Rule

end StaticTyping
