import StaticTyping.Proofs.Distinct.State

/-! The cost of work, by which the number of times that a diagnostic is foreseen grows at most. What
rules ask for has a cost, and the cost of a rule is what its requests cost together. -/

namespace StaticTyping

open Rule Multiset StaticTyping.Action

variable {name : String} {span : Span} {finding : Finding} {id : ExprId} {β : Type}

/-- The number of times that the diagnostic is foreseen grows by `k` at most. No declaration is lost,
and symbols with a name in `active` stay as they are. -/
structure State.Spends (d : Diagnostic) (active : List String) (k : ℕ) (s t : State) : Prop where
  foreseen : t.foreseen d ≤ s.foreseen d + k
  declarations : s.declarations ⊆ t.declarations
  spared : ∀ id, id.index < s.symbols.size → (s.symbols.get id).name ∈ active →
    id.index < t.symbols.size ∧ t.symbols.get id = s.symbols.get id

namespace State.Spends

variable {d : Diagnostic} {active : List String} {k l : ℕ} {s t u : State}

protected lemma refl (s : State) : Spends d active 0 s s :=
  ⟨le_rfl, fun _ h => h, fun _ h _ => ⟨h, rfl⟩⟩

lemma trans (hst : Spends d active k s t) (htu : Spends d active l t u) :
    Spends d active (k + l) s u where
  foreseen := by
    have hfirst := hst.foreseen
    have hsecond := htu.foreseen
    omega
  declarations := List.Subset.trans hst.declarations htu.declarations
  spared id hid hactive := by
    obtain ⟨hmiddle, hsame⟩ := hst.spared id hid hactive
    obtain ⟨hlast, hsame'⟩ := htu.spared id hmiddle (hsame ▸ hactive)
    exact ⟨hlast, hsame'.trans hsame⟩

lemma le (h : Spends d active k s t) (hkl : k ≤ l) : Spends d active l s t :=
  { h with foreseen := h.foreseen.trans (Nat.add_le_add_left hkl _) }

lemma step (action : Action β) (s : State) : Spends d [] (action.price d) s (action.step s).2 where
  foreseen := action.foreseen_step s
  declarations := by
    cases action with
    | noteDeclaration id made => exact List.subset_cons_self _ _
    | lookupValueType | declareValue | declareType =>
      simp only [step]
      split <;> exact .refl _
    | _ => exact .refl _
  spared _ _ hactive := absurd hactive List.not_mem_nil

lemma step_silent (d : Diagnostic) (active : List String) {action : Action β}
    (h : action.Silent) (s : State) : Spends d active (action.price d) s (action.step s).2 where
  foreseen := action.foreseen_step s
  declarations := (step (d := d) action s).declarations
  spared id hid _ := by
    rw [h.step_snd]
    exact ⟨hid, rfl⟩

end State.Spends

/-- A program and a diagnostic that is counted in its check. Parameters have different names, and the
diagnostic is none that elements of a spread may share. -/
structure Audit where
  env : Env
  d : Diagnostic
  params : ∀ id decl, (env.program.stmt id).kind = .function decl →
    ((decl.params.filter (·.kind != .separator)).map (·.name)).Nodup
  spreads : ∀ span ∈ env.program.spreadSpans, ∀ code, code.isPerElement → d.charge (some code) span = 0

namespace Audit

abbrev World (A : Audit) : Type := { s : State // s.Tidy A.env.program }

variable (A : Audit)

def spending (active : List String) : Effect ℕ A.World where
  does k w v := State.Spends A.d active k w.1 v.1
  zero w := .refl w.1
  add := .trans

section Costs

/-- The spans in an expression and below it at which the diagnostic stands. -/
def total (id : ExprId) : ℕ :=
  ((A.env.program.exprTree id).map fun x => A.d.marksIn (A.env.program.expr x).spans).sum

noncomputable def visitCost (id : ExprId) : ℕ :=
  A.d.share .value (A.env.exprSpan id) + A.d.share .target (A.env.exprSpan id) +
    A.d.marksIn (A.env.exprKind id).spans + ((A.env.exprKind id).children.map A.total).sum

/-- What a statement itself costs: what is declared in it, what it repeats, and the expressions that
it holds. -/
def nodeCost (id : StmtId) : ℕ := A.d.marksIn (A.env.program.stmt id).spans +
    A.d.marksIn (A.env.program.stmt id).kind.repeatedTypeParams +
    ((A.env.program.stmt id).kind.exprs.map A.total).sum

def stmtTotal (id : StmtId) : ℕ :=
  ((gatherWithin (fun a => {a}) A.env.program.stmtParts A.env.program.stmtDepth id).map
    A.nodeCost).sum

/-- What it costs to register the name of a type. What the target of an alias leads to is foreseen
from then on. -/
def nameCost (id : StmtId) : ℕ :=
  match (A.env.program.stmt id).kind with
  | .record _ decl => A.d.marks decl.name.span
  | .enum decl => A.d.marks decl.name.span
  | .typeAlias decl => A.d.marksIn decl.spans
  | _ => 0

def functionCost (id : StmtId) : ℕ :=
  match (A.env.program.stmt id).kind with
  | .function decl => A.d.marksIn (Ident.repeats [] decl.typeParams) +
      A.d.marksIn (decl.types.flatMap TypeExpr.spans) + A.d.marks decl.name.span
  | _ => 0

def partsCost (id : StmtId) : ℕ :=
  match (A.env.program.stmt id).kind with
  | .record _ decl => A.d.marksIn (Ident.repeats [] decl.typeParams) +
      A.d.marksIn (decl.fields.map (·.span)) +
      A.d.marksIn ((decl.fields.map (·.type)).flatMap TypeExpr.spans) +
      ((A.env.program.methodsOf id).map A.functionCost).sum
  | .enum decl => A.d.marksIn (decl.typeParams.map (·.span)) +
      A.d.marksIn (decl.variants.map (·.span)) +
      A.d.marksIn ((decl.variants.flatMap (·.payload)).flatMap TypeExpr.spans)
  | _ => 0

def registerCost (id : StmtId) : ℕ := A.nameCost id + A.partsCost id + A.functionCost id

/-- What a statement costs when it is checked. A declaration is registered then, if it is not yet. -/
def checkCost (s : State) (id : StmtId) : ℕ :=
  A.stmtTotal id - if (s.declarations.lookup id).isSome then A.registerCost id else 0

lemma sum_map_trees {α : Type} (tree : α → Multiset β) (weight : β → ℕ) (xs : List α) :
    (((xs.map tree).sum).map weight).sum = (xs.map fun x => ((tree x).map weight).sum).sum := by
  induction xs with
  | nil => rfl
  | cons x xs ih => simp [ih]

lemma total_eq (h : A.env.program.ExprEnds id) :
    A.total id = A.d.share .use (A.env.exprSpan id) + A.visitCost id := by
  have hmarks := A.d.share_add (A.env.exprSpan id)
  have hspans : A.d.marksIn (A.env.program.expr id).spans =
      A.d.marks (A.env.exprSpan id) + A.d.marksIn (A.env.exprKind id).spans := A.d.marksIn_cons _ _
  unfold total
  rw [h.exprTree_eq, map_add, sum_add, sum_map_trees, map_singleton,
    sum_singleton, hspans, visitCost]
  change _ + ((A.env.exprKind id).children.map A.total).sum = _
  omega

end Costs

/-- The expressions and statements that may be visited. The way down from them ends. -/
structure Reach (A : Audit) where
  exprs : ExprId → Prop
  stmts : StmtId → Prop
  expr_ends : ∀ id, exprs id → A.env.program.ExprEnds id
  expr_child : ∀ a b, exprs a → b ∈ A.env.program.exprChildren a → exprs b
  stmt_ends : ∀ id, stmts id → A.env.program.StmtEnds id
  stmt_expr : ∀ id e, stmts id → e ∈ (A.env.program.stmt id).kind.exprs → exprs e
  stmt_child : ∀ a b, stmts a → b ∈ A.env.program.stmtChildren a → stmts b

/-- The contract for rules. Actions are performed on the state, and a use of an alias inside the
expansion of others may turn out to close a cycle. -/
def Reach.contract {A : Audit} (R : A.Reach) : Contract Request A.World where
  requires
    | .act action, w => action.Tidy A.env.program w.1
    | .expr _ id, _ => R.exprs id
    | .stmt id, _ => R.stmts id
    | .expand _ _ _ _, _ => True
  ensures
    | .act action, w, answer, v => action.step w.1 = (answer, v.1)
    | .expr _ id, w, _, v => State.Spends A.d [] (A.visitCost id) w.1 v.1
    | .stmt id, w, _, v => State.Spends A.d [] (A.checkCost w.1 id) w.1 v.1
    | .expand active _ span _, w, _, v =>
      State.Spends A.d active (if active = [] then 0 else A.d.charge (some .aliasCycle) span) w.1 v.1

end Audit

variable {A : Audit} {α β : Type} {active : List String} {k l m : ℕ}

abbrev Audit.Reach.CostsWithin (R : A.Reach) (active : List String) (k : ℕ) (x : Rule α) : Prop :=
  Steps.Has R.contract (A.spending active) k x

abbrev Audit.Reach.Costs (R : A.Reach) (k : ℕ) (x : Rule α) : Prop := R.CostsWithin [] k x

abbrev Audit.Reach.Gives (R : A.Reach) (k : ℕ) (x : Rule α) (Q : α → Prop) : Prop :=
  Steps.Gives R.contract (A.spending []) k x Q

variable {R : A.Reach} {x : Rule α}

lemma Steps.Has.le (hx : R.CostsWithin active k x) (h : k ≤ l) : R.CostsWithin active l x :=
  fun w => (hx w).mono fun _ _ hv => .le hv h

lemma Steps.Has.bind_le {f : α → Rule β} (hx : R.CostsWithin active k x)
    (hf : ∀ a, R.CostsWithin active l (f a)) (h : k + l ≤ m) : R.CostsWithin active m (x >>= f) :=
  (hx.bind hf).le h

lemma Steps.Gives.le {Q : α → Prop} (hx : R.Gives k x Q) (h : k ≤ l) : R.Gives l x Q :=
  fun w => (hx w).mono fun _ _ hv => ⟨.le hv.1 h, hv.2⟩

namespace Audit.Reach

lemma costs_pure (a : α) (k : ℕ) : R.CostsWithin active k (pure a : Rule α) :=
  Steps.Has.le (.pure a) (Nat.zero_le k)

lemma perform_meets (action : Action α) (w : A.World) (htidy : action.Tidy A.env.program w.1) :
    (perform action).Meets R.contract w fun a v => action.step w.1 = (a, v.1) :=
  ⟨htidy, fun _ _ hv => hv⟩

lemma perform_costs (action : Action α) (htidy : ∀ s, action.Tidy A.env.program s) :
    R.Costs (action.price A.d) (perform action) := by
  intro w
  refine (perform_meets action w (htidy w.1)).mono fun a v hv => ?_
  have hstep := State.Spends.step (d := A.d) action w.1
  rwa [hv] at hstep

lemma silent_gives {action : Action α} (h : action.Silent) :
    Steps.Gives R.contract (A.spending active) (action.price A.d) (perform action) action.Assures := by
  intro w
  have htidy : action.Tidy A.env.program w.1 := by
    cases action with
    | allocate | setMembers | noteDeclaration => exact h.elim
    | _ => trivial
  refine (perform_meets action w htidy).mono fun a v hv => ⟨?_, ?_⟩
  · have hstep := State.Spends.step_silent A.d active h w.1
    rwa [hv] at hstep
  · cases action with
    | readSymbol id =>
      obtain rfl : w.1.symbols.get id = a := congrArg Prod.fst hv
      exact w.2.symbols id
    | _ => trivial

lemma symbol_meets (id : SymbolId) (w : A.World) :
    (symbol id).Meets R.contract w fun symbol v => symbol = w.1.symbols.get id ∧ v = w := by
  refine (perform_meets (.readSymbol id) w trivial).mono fun symbol v hv => ?_
  simp only [step, Prod.mk.injEq] at hv
  exact ⟨hv.1.symm, Subtype.ext hv.2.symm⟩

/-- To count how often rules report the diagnostic. -/
noncomputable abbrev account (R : A.Reach) : Account ℕ where
  env := A.env
  visits := R.exprs
  one _ := 0
  tree _ := 0
  d := A.d
  cost := A.visitCost
  total := A.total
  tidy := True
  tidy_of_placed _ := trivial

lemma descends (R : A.Reach) : R.account.Descends where
  tree id _ := by simp
  child := R.expr_child
  cost _ _ := le_rfl
  total id h := (A.total_eq (R.expr_ends id h)).ge
  spares id callee args hkind arg harg hloose := by
    have hkind : (A.env.program.expr id).kind = .call callee args := hkind
    have hmem : arg.span ∈ A.env.program.looseSpreads (A.env.program.expr id) := by
      simp only [Program.looseSpreads, hkind]
      exact List.mem_map_of_mem (List.mem_filter.mpr ⟨harg, hloose⟩)
    exact A.spreads arg.span (mem_flatMap_kids _ rfl hmem)

end Audit.Reach

namespace Rule.Account.Gives

variable {K : ℕ} {Q : α → Prop}

/-- What a rule is known to report is what it costs. -/
lemma audited (hx : R.account.Gives active K k x Q) :
    Steps.Gives R.contract (A.spending active) k x Q := by
  have hvisit (role : Role) {id : ExprId} (hid : R.exprs id) :
      R.Costs (A.visitCost id) (Rule.visit role id) := fun _ => ⟨hid, fun _ _ hv => hv⟩
  induction hx with
  | answer h => exact fun w => ⟨(State.Spends.refl w.1).le (Nat.zero_le _), h trivial⟩
  | act _ h => exact Audit.Reach.silent_gives h
  | expand => exact fun w => ⟨trivial, fun _ _ hv => ⟨hv, trivial⟩⟩
  | visit role hactive hid =>
    subst hactive
    exact (hvisit role hid).gives
  | record id ty hactive =>
    subst hactive
    exact (Audit.Reach.perform_costs (.record id ty) fun _ => trivial).gives
  | clearNarrowing name hactive =>
    subst hactive
    exact (Audit.Reach.perform_costs (.clearNarrowing name) fun _ => trivial).gives
  | operands hint hactive hleft hright =>
    subst hactive
    have hcount : R.Costs 0 (perform .diagnosticCount) :=
      Audit.Reach.perform_costs .diagnosticCount fun _ => trivial
    refine Steps.Has.gives ?_
    unfold operandTypes
    split
    · rw [add_comm]
      refine hcount.after fun start => (hvisit _ hright).bind fun _ => ?_
      refine hcount.after fun middle => (hvisit _ hleft).before fun _ => ?_
      exact .andPure (Audit.Reach.perform_costs (.hoist start middle) fun _ => trivial)
    · exact (hvisit _ hleft).bind fun _ => (hvisit _ hright).andPure
  | bind _ _ hx hf => exact hx.bind fun a ha => hf a fun _ => ha
  | mono _ hle hQ hx => exact fun w => (hx w).mono fun a _ hv => ⟨.le hv.1 hle, hQ a hv.2⟩

lemma costs (hx : R.account.Gives active K k x Q) : R.CostsWithin active k x := hx.audited.has

end Rule.Account.Gives

namespace Audit.Reach

variable {condition : Bool} {Q : β → Prop} {f : Symbol → Rule β} {id : SymbolId}

lemma costs_of_symbol (hf : ∀ symbol, symbol.Tidy → R.CostsWithin active k (f symbol)) :
    R.CostsWithin active k (symbol id >>= f) := by
  intro w
  refine (symbol_meets id w).bind ?_
  rintro _ v ⟨rfl, rfl⟩
  exact hf _ (v.2.symbols id) v

lemma gives_of_symbol (hf : ∀ symbol, symbol.Tidy → R.Gives k (f symbol) Q) :
    R.Gives k (symbol id >>= f) Q := by
  intro w
  refine (symbol_meets id w).bind ?_
  rintro _ v ⟨rfl, rfl⟩
  exact hf _ (v.2.symbols id) v

lemma report_costs (code : Code) (h : finding.topic = some code) :
    R.CostsWithin active (A.d.charge (some code) span) (report finding span) :=
  (report_charge (.inr trivial) code h).costs

lemma reportIf_costs (code : Code) (h : finding.topic = some code) :
    R.CostsWithin active (A.d.charge (some code) span) (reportIf condition finding span) :=
  (reportIf_does (report_charge (.inr trivial) code h)).costs

variable {id : ExprId}

lemma visit_total (h : R.exprs id) (role : Role) : R.Costs (A.total id) (visit role id) :=
  (Rule.visit_total R.descends h role).costs

lemma visitOnly_costs (h : R.exprs id) : R.Costs (A.total id) (visitOnly id) :=
  (visit_total h _).andPure

/-- What is reported at the span of a value about its use belongs to its total. -/
lemma visit_use (h : R.exprs id) (role : Role) (code : Code) (hcode : Aspect.ofTopic (some code) = .use)
    {f : Ty → Rule β} (hf : ∀ ty, R.Costs (A.d.charge (some code) (A.env.exprSpan id)) (f ty)) :
    R.Costs (A.total id) (visit role id >>= f) :=
  Steps.Has.bind_le (visit_does h role).costs hf
    (R.descends.cost_add_charge h code hcode)

lemma visitStmts_costs {ids : List StmtId} (h : ∀ id ∈ ids, R.stmts id) :
    R.Costs (ids.map A.stmtTotal).sum (ids.forM visitStmt) :=
  .forM fun id hid _ => ⟨h id hid, fun _ _ hv => hv.le (Nat.sub_le _ _)⟩

end Audit.Reach

end StaticTyping
