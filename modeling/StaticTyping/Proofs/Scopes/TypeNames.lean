import StaticTyping.Proofs.Aliases.Scoped
import StaticTyping.Proofs.Mirror.Exchange
import StaticTyping.Proofs.Mirror.Rule
import StaticTyping.Proofs.Scopes.Effects

/-! Names of types. At every point of a check, whatever a scope knows by the name of a type is a type. So
what is wrong with a type expression can be told from the expression and from the scopes, and each node
that is wrong is reported once. -/

namespace StaticTyping

open Rule Check List StaticTyping.Action Steps

variable {α β : Type} {s : State} {action : Action β}

/-- All that scopes know by names of types are types. -/
def State.NamesTypes (s : State) : Prop :=
  ∀ name id, s.Binds name id → (s.symbols.get id).kind.isType

lemma State.NamesTypes.step (h : s.NamesTypes)
    (haction : ∀ name id, action.Names name id → (s.symbols.get id).kind.isType) :
    (action.step s).2.NamesTypes := by
  intro name id hid
  have hbefore : (s.symbols.get id).kind.isType := hid.of_step.elim (h name id) (haction name id)
  have hlt : id.index < s.symbols.size := by
    by_contra hlt
    simp [SymbolTable.get_of_not_lt hlt, SymbolKind.isType] at hbefore
  rw [(action.keepsKinds s id hlt).2]
  exact hbefore

lemma State.NamesTypes.typeArity_ne (h : s.NamesTypes) (name : String) :
    s.typeArity name ≠ .error (.notAType name) := by
  intro hname
  unfold State.typeArity at hname
  split at hname
  · cases hname
  split_ifs at hname
  split at hname
  · cases hname
  · rename_i id hlookup
    have htype := h name id (State.binds_of_lookupType hlookup)
    cases hkind : (s.symbols.get id).kind <;> simp [hkind, SymbolKind.isType] at hname htype

namespace Rule

variable {visits : Visits} {env : Env} {id : StmtId}

/-- No part of a program names anything as a type that is none. -/
structure NamesOnly (visits : Visits) : Prop where
  expr (role : Role) (id : ExprId) (s : State) : (visits.expr role id).Stays State.NamesTypes s
  stmt (id : StmtId) (s : State) : (visits.stmt id).Stays State.NamesTypes s
  expand (id : SymbolId) (span : Span) (cyclic : Cyclic) (s : State) :
    (visits.expand [] id span cyclic).Stays State.NamesTypes s

lemma lift_names (haction : ∀ name id, action.Names name id → (s.symbols.get id).kind.isType) :
    Stays State.NamesTypes (lift action) s :=
  fun hs => meets_performing_iff.mpr ⟨⟨hs, trivial⟩, hs.step haction⟩

/-- An action of a kind to which declaring a type does not belong. -/
lemma lift_names_of (P : {β : Type} → Action β → Prop) (hP : ∀ name id, ¬P (.declareType name id))
    (haction : P action) (s : State) : Stays State.NamesTypes (lift action) s := by
  refine lift_names fun name id hid => ?_
  cases action with
  | declareType => exact absurd haction (hP _ _)
  | _ => exact hid.elim

lemma perform_names (action : Action α) (haction : ∀ name id, ¬action.Names name id) :
    Has (running visits State.NamesTypes) uncounted 0 (perform action) :=
  fun _ => ⟨lift_names fun name id h => absurd h (haction name id), fun _ _ _ => trivial⟩

variable (h : NamesOnly visits)

include h

lemma Silent.names {x : Rule α} (hx : Silent True [] x) :
    Has (running visits State.NamesTypes) uncounted 0 x := by
  refine fun s => Uses.meets (I := fun _ => True) (fun request t hrequest _ => ?_) hx trivial
  refine ⟨?_, fun _ _ _ => trivial⟩
  cases request with
  | act action => exact lift_names_of Action.Silent (fun _ _ => id) hrequest.1 t
  | expr | stmt => exact hrequest.elim
  | expand active id span cyclic =>
    obtain rfl : active = [] := hrequest
    exact (congrArg (Stays _ · t) (toCheck_expand id span cyclic)).mpr (h.expand id span cyclic t)

/-- A symbol that was just made is a type if it was made as one. -/
lemma names_pieces : Pieces (running visits State.NamesTypes) uncounted := by
  refine .of_silent (Silent.names h) (fun symbol _ => perform_names (.allocate symbol) fun _ _ => id)
    (fun name made => perform_names (.declareValue name made) fun _ _ => id) ?_ fun hx => ?_
  · intro _ _ symbol f _ hkind hf s
    refine ⟨lift_names fun _ _ hid => hid.elim, fun made t ht => ?_⟩
    obtain ⟨rfl, rfl⟩ : _ ∧ _ := Prod.mk.inj ht
    have hact : (perform (.declareType symbol.name ⟨s.symbols.size⟩)).Meets
        (running visits State.NamesTypes) ((Action.allocate symbol).step s).2
        fun _ u => uncounted.does 0 ((Action.allocate symbol).step s).2 u := by
      refine ⟨lift_names fun _ _ hid => ?_, fun _ _ _ => trivial⟩
      rw [← hid.2, Action.step]
      simpa [SymbolTable.get_alloc_new] using hkind
    exact (declareType_of_act (Silent.names h) hact).bind fun _ u _ => hf _ u
  · exact (perform_names .pushScope fun _ _ => id).after fun _ => hx.before fun _ =>
      (perform_names .popScope fun _ _ => id).andPure

def namesWalk : Walk (running visits State.NamesTypes) uncounted where
  exprs _ := True
  stmts _ := True
  expr _ := 0
  stmt _ := 0
  pieces := names_pieces h
  visit {id} role _ := fun s =>
    ⟨(congrArg (Stays _ · s) (toCheck_visit role id)).mpr (h.expr role id s), fun _ _ _ => trivial⟩
  visitStmt {id} _ := fun s =>
    ⟨(congrArg (Stays _ · s) (bind_done (visits.stmt id))).mpr (h.stmt id s), fun _ _ _ => trivial⟩

omit h in
lemma declaring_names (action : Action β) (h : action.Declaring) :
    Has (running visits State.NamesTypes) uncounted 0 (perform action) :=
  fun s => ⟨lift_names_of Action.Declaring (fun _ _ => id) h s, fun _ _ _ => trivial⟩

lemma statement_names (s : State) :
    (statement env id).Meets (running visits State.NamesTypes) s fun _ _ => True := by
  refine (namesWalk h).wholeStatement ⟨fun _ _ => trivial, fun _ _ _ _ => trivial, fun _ _ => trivial,
    fun _ _ _ _ => trivial⟩ (fun ty => perform_names (.noteReturn ty) nofun)
    (fun _ name ty => perform_names (.narrow name ty) nofun) (fun declared _ _ hx => ?_)
    (fun _ => declaring_names) (fun _ => (names_pieces h).nameDeclared declaring_names)
    (fun _ _ made variants _ => perform_names (.setVariants made variants) nofun) s
  exact (perform_names (.enterFunction declared) nofun).after fun _ =>
    hx.before fun _ => perform_names .leaveFunction nofun

end Rule

namespace Check

variable {env : Env}

lemma stmtWithin_names (depth : Nat) :
    NamesOnly { expr := expr env, stmt := stmtWithin env depth, expand } := by
  have hclosed : Closed fun {_} x => ∀ s, Stays State.NamesTypes x s :=
    ⟨fun _ _ hs => hs, fun hx hf s hs => (hx s hs).bind fun a t ht => hf a t ht⟩
  have habandon (s : State) : Stays State.NamesTypes (lift abandon) s := lift_names nofun
  have hexpand (id : SymbolId) (span : Span) (cyclic : Cyclic) (s : State) :
      (expand [] id span cyclic).Stays State.NamesTypes s := by
    have hcount (s : State) : Stays State.NamesTypes (lift symbolCount) s := lift_names nofun
    exact hclosed.bind hcount (fun _ => hclosed.expandWithin (fun _ h _ =>
      lift_names_of Action.Resolving (fun _ _ h => h) h) habandon _ _ _ _ _) s
  have hexpr (role : Role) (id : ExprId) (s : State) : (expr env role id).Stays State.NamesTypes s :=
    hclosed.exprWithin habandon (fun _ h => lift_names_of (Action.Recording True) (fun _ _ h => h) h)
      hexpand _ role id s
  induction depth with
  | zero => exact ⟨hexpr, fun _ => habandon, hexpand⟩
  | succ depth ih => exact ⟨hexpr, fun id s => stays_of_meets (statement_names ih s), hexpand⟩

lemma program_namesTypes (env : Env) (imports : List Ident) :
    ∀ s ∈ (program env imports).states {}, s.NamesTypes := by
  have hnames : NamesOnly { expr := expr env, stmt := stmtWithin env env.program.stmtDepth, expand } :=
    stmtWithin_names _
  have hdeclarative (id : StmtId) : Declarative (running _ State.NamesTypes) uncounted
      (fun _ _ _ => True) (fun _ => True) env.program id :=
    (names_pieces hnames).declarative declaring_names ((names_pieces hnames).nameDeclared declaring_names)
      fun _ _ made variants _ => perform_names (.setVariants made variants) nofun
  have hrule := (namesWalk hnames).program hdeclarative (fun _ _ => trivial) imports {}
  have hstart : State.NamesTypes {} := by
    rintro name id ⟨frame, hframe, hfound⟩
    obtain rfl := mem_singleton.mp hframe
    cases hfound
  obtain ⟨halong, hlast⟩ := meets_performing_iff.mp (stays_of_meets hrule hstart)
  exact forall_mem_states halong hlast

lemma expand_known {id : SymbolId} {ty : Ty} (hty : (s.symbols.get id).ty = some ty) (span : Span)
    (cyclic : Cyclic) : (expand [] id span cyclic).run s = ((ty, cyclic), s) := by
  have hends : Rule.Ends { expand := expandWithin s.symbols.size } (expandAlias [] id span cyclic) s
      fun r t => (r, t) = ((ty, cyclic), s) := by
    refine expandAlias_cases (fun other hother => ?_) ?_ ?_ ?_
    · rw [Option.some.inj (hty.symm.trans hother)]
    · simp [hty]
    · simp [hty]
    · simp [hty]
  exact hends

/-- Each node of a type expression that is wrong is reported once, after those inside it. Where all
aliases in sight have their types nothing else happens, and no name is found that is not a type. -/
theorem resolveType_reports_once {env : Env} {imports : List Ident}
    (hs : s ∈ (program env imports).states {})
    (haliases : ∀ name id, s.scopes.lookupType name = some id →
      (s.symbols.get id).kind = .typeAlias → (s.symbols.get id).ty.isSome) (t : TypeExpr) :
    ((ofRule env (resolveType t)).run s).2 = s.adding ⟨(s.typeReports t).toArray⟩ ∧
      ∀ name, s.typeArity name ≠ .error (.notAType name) := by
  have hknown (name : String) : AliasKnown { expr := expr env, expand } [] s name := by
    refine .inr fun id hlookup hkind => ?_
    obtain ⟨ty, hty⟩ := Option.isSome_iff_exists.mp (haliases name id hlookup hkind)
    exact ⟨ty, fun span cyclic t ht => expand_known (ht.known hty) span cyclic⟩
  obtain ⟨ty, -, hread⟩ := resolveIn_reads (t := t) fun name _ => hknown name
  refine ⟨?_, (program_namesTypes env imports s hs).typeArity_ne⟩
  rw [ofRule, resolveType, toCheck_bind, run_bind, hread [] s (.refl s)]
  rfl

/-- At the end of a check the alias has its type. There each of four nodes is wrong, the last two of them
one inside the other. -/
theorem resolveType_reports_once_nested :
    let s := ((program namedCast []).run {}).2
    let t : TypeExpr := .named {} "Array" [.hole {}, .named {} "Count" [.named {} "Missing" []]]
    let reports := [.unresolvedType, .unknownType "Missing", .genericArity "Count" 0 1,
      .genericArity "Array" 1 2].map fun finding => Finding.toDiagnostic finding {}
    s ∈ (program namedCast []).states {} ∧
      ((ofRule namedCast (resolveType t)).run s).2 = s.adding ⟨reports.toArray⟩ := by
  intro s t reports
  have hs : s ∈ (program namedCast []).states {} := run_mem_states _ _
  have haliases (name : String) (id : SymbolId) (hlookup : s.scopes.lookupType name = some id)
      (hkind : (s.symbols.get id).kind = .typeAlias) : (s.symbols.get id).ty.isSome := by
    have hsize : s.symbols.size = 1 := by decide +kernel
    have hlt : id.index < s.symbols.size := by
      by_contra hlt
      simp [SymbolTable.get_of_not_lt hlt] at hkind
    obtain rfl : id = ⟨0⟩ := congrArg SymbolId.mk (by omega)
    decide +kernel
  have hreports : s.typeReports t = reports := by decide +kernel
  rw [← hreports]
  exact ⟨hs, (resolveType_reports_once hs haliases t).1⟩

end Check

end StaticTyping
