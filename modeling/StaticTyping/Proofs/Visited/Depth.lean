import StaticTyping.Proofs.Requests
import StaticTyping.Proofs.Visited.Run

/-! Depth plays no part where the way down ends. Checking an expression or a statement to a greater depth
than it has is the same check, so that it is checked by its rule with its parts checked in full. -/

namespace StaticTyping

open Rule

variable {B : ExprId → Prop} {K : Multiset ExprId}

lemma Rule.visiting_ensures {T : ExprId → Multiset ExprId} {β : Type}
    (request : Request β) (M : Multiset ExprId) (answer : β) :
    ∃ N, (visiting T B).ensures request M answer N := by
  cases request with
  | act action => cases action <;> exact ⟨_, rfl⟩
  | stmt id => exact ⟨M, trivial⟩
  | expr role id => exact ⟨_, rfl⟩
  | expand active id span cyclic => exact ⟨_, rfl⟩

/-- How other expressions are checked than those that a rule may visit makes no difference to it. -/
lemma Rule.Account.Gives.toCheck_congr {α : Type} {env : Env} {k : ℕ} {x : Rule α} {P : α → Prop}
    (hx : (Account.trees env B).Gives [] K k x P) {visits visits' : Visits}
    (hexpr : ∀ role id, B id → visits.expr role id = visits'.expr role id)
    (hexpand : visits.expand = visits'.expand) : x.toCheck visits = x.toCheck visits' := by
  refine Steps.Meets.handle_congr (fun request M hrequest => ?_)
    (fun request M answer _ => visiting_ensures request M answer) (hx.has 0)
  cases request with
  | act action => rfl
  | expr role id => exact hexpr role id hrequest
  | stmt id => exact hrequest.elim
  | expand active id span cyclic => simp only [Visits.answer, hexpand]

namespace Check

variable {env : Env} {id : ExprId} {s : State} {name : String} {symbol : SymbolId}

lemma exprWithin_stable {m n : Nat} (role : Role)
    (hdepth : EndsWithin env.program.exprChildren (fun _ => True) m id)
    (hends : env.program.ExprEnds id) (hmn : m ≤ n) :
    exprWithin env n role id = exprWithin env m role id := by
  induction m generalizing n id role with
  | zero => exact hdepth.elim
  | succ m ih =>
    obtain ⟨n, rfl⟩ := Nat.exists_eq_add_of_le' (Nat.le_trans (Nat.le_add_left 1 m) hmn)
    have hle : m ≤ n := Nat.le_of_succ_le_succ hmn
    let B (c : ExprId) : Prop :=
      EndsWithin env.program.exprChildren (fun _ => True) m c ∧ env.program.ExprEnds c
    have hdescends : (Account.trees env B).Descends :=
      Account.trees_descends (fun c hc => hc.2) fun a b ha hb => ⟨ha.1.child hb, ha.2.child hb⟩
    have hchildren : ∀ c ∈ env.program.exprChildren id, B c :=
      fun c hc => ⟨hdepth.2 c hc, hends.child hc⟩
    have hrule := expression_does hdescends hchildren (fun _ _ _ => trivial)
      (fun _ _ _ _ => trivial) role
    exact hrule.toCheck_congr (fun role c hc => ih role hc.1 hc.2 hle) rfl

/-- The check that a rule for an expression amounts to, with all expressions in it checked in full. -/
def ofRule {α : Type} (env : Env) (rule : Rule α) : Check α :=
  rule.toCheck { expr := expr env, expand }

lemma expr_eq_ofRule (role : Role) (h : env.program.ExprEnds id) :
    expr env role id = ofRule env (expression env role id) := by
  have hdeeper := exprWithin_stable role h h (Nat.le_succ env.program.exprDepth)
  exact hdeeper.symm

lemma ofRule_bind {α β : Type} (env : Env) (x : Rule α) (f : α → Rule β) :
    ofRule env (x >>= f) = ofRule env x >>= fun a => ofRule env (f a) :=
  Steps.handle_bind _ x f

lemma run_ofRule_perform {α : Type} (action : Action α) (s : State) :
    (ofRule env (perform action)).run s = action.step s := rfl

lemma ofRule_visit_eq_expr (role : Role) (id : ExprId) :
    ofRule env (visit role id) = expr env role id := Steps.bind_done _

lemma ofRule_visit (role : Role) (h : env.program.ExprEnds id) :
    ofRule env (visit role id) = ofRule env (expression env role id) := by
  rw [ofRule_visit_eq_expr, expr_eq_ofRule role h]

lemma acyclicExpr_of_name (h : env.exprKind id = .name name) : env.program.AcyclicExpr id := by
  have hnone : env.program.exprChildren id = [] := congrArg ExprKind.children h
  exact .of_children (by simp [hnone])

lemma run_lookupValue (hbound : s.scopes.lookupValue name = some symbol) :
    (ofRule env (lookupValue name)).run s = (some symbol, s) := by
  rw [← hbound]
  rfl

lemma run_visit_name (hkind : env.exprKind id = .name name) {ty : Ty}
    (hty : (Action.lookupValueType name).step s = (some ty, s)) (hint : Option Ty) :
    (ofRule env (visit (.value hint) id)).run s = (ty, ((Action.record id ty).step s).2) := by
  simp only [ofRule_visit _ (acyclicExpr_of_name hkind).ends, expression, roleType,
    valueType, hkind, nameType, ofRule_bind, run_bind, run_ofRule_perform, hty]
  rfl

lemma descends_exprEnds (env : Env) : (Account.trees env env.program.ExprEnds).Descends :=
  Account.trees_descends (fun _ h => h) fun _ _ h hchild => h.child hchild

lemma ofRule_proceeds {α : Type} {k : ℕ} {x : Rule α} {P : α → Prop}
    (hx : (Account.trees env env.program.ExprEnds).Gives [] K k x P) (s : State) :
    (ofRule env x).Along (fun action _ => action.Proceeds) s := by
  have hvisits := visiting_fulfil env fun role id (hid : env.program.ExprEnds id) s =>
    (expr_meets hid role s).mono fun _ _ h => h.1
  have hmeets := toCheck_meets hvisits (hx.has s.outline.recorded) rfl
  exact (meets_performing_iff.mp hmeets).1.mono fun _ _ h => h.proceeds

lemma stmtWithin_stable {m n : Nat} {id : StmtId} (hdepth : env.program.StmtEndsWithin m id)
    (hmn : m ≤ n) : stmtWithin env n id = stmtWithin env m id := by
  induction m generalizing n id with
  | zero => exact hdepth.elim
  | succ m ih =>
    obtain ⟨n, rfl⟩ := Nat.exists_eq_add_of_le' (Nat.le_trans (Nat.le_add_left 1 m) hmn)
    have hle : m ≤ n := Nat.le_of_succ_le_succ hmn
    have hasks : Asks (env.program.stmt id).kind.Performs (fun _ => True)
        (env.program.StmtEndsWithin m) (statement env id) :=
      statement_asks (fun _ _ => trivial) (fun _ _ _ _ => trivial) hdepth.2
        fun a ha _ => (hdepth.2 a ha).child
    refine hasks.uses.handle_congr fun request hrequest => ?_
    cases request with
    | act | expr | expand => rfl
    | stmt c => exact ih hrequest hle

lemma stmt_eq_toCheck {id : StmtId} (h : env.program.StmtEnds id) :
    stmt env id = (statement env id).toCheck { expr := expr env, stmt := stmt env, expand } :=
  (stmtWithin_stable h (Nat.le_succ env.program.stmtDepth)).symm

end Check

end StaticTyping
