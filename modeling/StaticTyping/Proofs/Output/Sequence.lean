import StaticTyping.Proofs.Output.Frame

/-! Diagnostics come in the order of the source. No check changes what was reported before it, and of
two operands the left one is reported on first, whichever of them is checked first. -/

namespace StaticTyping

open Diagnostics Check Rule List

lemma StmtKind.Performs.steady {kind : StmtKind} {β : Type} {action : Action β}
    (h : kind.Performs action) : action.Steady := by
  cases action with
  | diagnosticCount | hoist => rcases h.cases with h | h | h | h <;> exact h.elim
  | _ => trivial

lemma Check.stmtWithin_appends (env : Env) (depth : Nat) (id : StmtId) :
    (stmtWithin env depth id).Appends :=
  Appends.closed.stmtWithin (.lift .abandon trivial) (fun _ action h => .lift action h.steady)
    (exprWithin_appends _) (expand_appends []) depth id

namespace Check

variable {α β : Type} {env : Env} {s : State} {x : Check α}

/-- What the check reports, after all that was reported before it. -/
def reports (x : Check α) (s : State) : List Diagnostic :=
  (x.run s).2.diagnostics.entries.toList.drop s.diagnostics.size

lemma reports_eq {ds : List Diagnostic}
    (h : (x.run s).2.diagnostics.entries.toList = s.diagnostics.entries.toList ++ ds) :
    x.reports s = ds := by
  rw [reports, h, size_eq, drop_left]

lemma Appends.reports_eq_quiet (hx : x.Appends) (s : State) :
    x.reports s = (x.run s.quiet).2.diagnostics.entries.toList := by
  rw [reports, hx.run_eq s]
  simp only [State.precededBy, toList_append, size_eq, drop_left]

lemma Appends.toList_diagnostics (hx : x.Appends) (s : State) :
    (x.run s).2.diagnostics.entries.toList = s.diagnostics.entries.toList ++ x.reports s := by
  rw [hx.reports_eq_quiet, hx.run_eq s]
  simp only [State.precededBy, toList_append]

lemma reports_bind {f : α → Check β} (hx : x.Appends) (hf : ∀ a, (f a).Appends) (s : State) :
    (x >>= f).reports s = x.reports s ++ (f (x.run s).1).reports (x.run s).2 := by
  have hwhole := (hx.bind hf).toList_diagnostics s
  rw [run_bind, (hf _).toList_diagnostics, hx.toList_diagnostics, append_assoc] at hwhole
  exact (append_cancel_left hwhole).symm

end Check

namespace Check

variable {left right : ExprId} {hint : Option Ty}

/-- What the left operand and what the right operand of an operator report. A literal on the left is
checked after the right side, which hints at its type. -/
def operandReports (env : Env) (left right : ExprId) (hint : Option Ty) (s : State) :
    List Diagnostic × List Diagnostic :=
  if env.program.isLiteral left && !env.program.isLiteral right then
    let (rightType, after) := (expr env (.value hint) right).run s
    ((expr env (.value (some rightType)) left).reports after,
      (expr env (.value hint) right).reports s)
  else
    let (leftType, after) := (expr env (.value hint) left).run s
    ((expr env (.value hint) left).reports s,
      (expr env (.value (some leftType)) right).reports after)

lemma expr_appends (env : Env) (role : Role) (id : ExprId) : (expr env role id).Appends :=
  exprWithin_appends _ role id

/-- What is checked second is moved ahead of what is checked first. -/
lemma reports_hoisted {α β γ : Type} {x : Check α} {f : α → Check β} (hx : x.Appends)
    (hf : ∀ a, (f a).Appends) (g : α → β → γ) (s : State) :
    reports (do
      let start ← Steps.lift .diagnosticCount
      let a ← x
      let middle ← Steps.lift .diagnosticCount
      let b ← f a
      Steps.lift (.hoist start middle)
      return g a b) s = (f (x.run s).1).reports (x.run s).2 ++ x.reports s := by
  have hfirst := hx.toList_diagnostics s
  have hsecond := (hf (x.run s).1).toList_diagnostics (x.run s).2
  rw [hfirst] at hsecond
  have hhoist : (((f (x.run s).1).run (x.run s).2).2.diagnostics.hoist s.diagnostics.size
      (x.run s).2.diagnostics.size).entries.toList = s.diagnostics.entries.toList ++
        (f (x.run s).1).reports (x.run s).2 ++ x.reports s := by
    rw [toList_hoist, size_eq, size_eq, hfirst, hsecond,
      if_pos (by simp), hoisted_between]
  rw [reports]
  simp only [run_bind, run_lift, Action.step]
  calc _ = (s.diagnostics.entries.toList ++ (f (x.run s).1).reports (x.run s).2 ++
            x.reports s).drop s.diagnostics.size := congrArg _ hhoist
    _ = _ := by rw [append_assoc, size_eq, drop_left]

lemma operandTypes_reports (env : Env) (left right : ExprId) (hint : Option Ty) (s : State) :
    (ofRule env (operandTypes env left right hint)).reports s =
      (operandReports env left right hint s).1 ++ (operandReports env left right hint s).2 := by
  have hexpr (hint : Option Ty) (id : ExprId) := expr_appends env (.value hint) id
  unfold operandTypes operandReports
  split
  · simp only [ofRule, toCheck_bind, toCheck_perform, toCheck_visit]
    exact reports_hoisted (hexpr hint right) (fun _ => hexpr _ left) (fun r l => (l, r)) s
  · simp only [ofRule, toCheck_bind, toCheck_visit]
    have hpure (leftType : Ty) (t : State) :
        (expr env (.value (some leftType)) right >>= fun rightType =>
          pure (leftType, rightType)).reports t = (expr env (.value (some leftType)) right).reports t := by
      rw [reports, run_bind]
      rfl
    have hboth := reports_bind (hexpr hint left)
      (fun leftType => (hexpr (some leftType) right).bind fun rightType =>
        .pure (leftType, rightType)) s
    rwa [hpure] at hboth

end Check

/-- The code that an operator reports its operands with, if it checks one by the type of the other. -/
def BinaryOp.operandCode? : BinaryOp → Option Code
  | .equal | .notEqual => some .equalityOperand
  | .greater | .greaterEqual | .less | .lessEqual => some .orderingOperand
  | .add | .subtract | .multiply | .divide | .modulo | .bitOr => some .arithmeticOperand
  | .is | .and | .or => none

/-- What is hinted at for the operand that is checked first. Only the result of arithmetic has the type
of its operands. -/
def BinaryOp.operandHint (op : BinaryOp) (role : Role) : Option Ty :=
  match op.operandCode?, role with
  | some .arithmeticOperand, .value hint => hint
  | _, _ => none

namespace Rule

variable {α β : Type} {env : Env} {span : Span} {code : Code} {op : BinaryOp}

/-- The rule reports nothing but what is listed, each at most once and in this order. -/
def ReportsAt (env : Env) (places : List (Option Span × Code)) (x : Rule α) : Prop :=
  (ofRule env x).Appends ∧
    ∀ s, (((ofRule env x).reports s).map fun d => (d.span, d.code)).Sublist places

namespace ReportsAt

variable {x : Rule α} {places later : List (Option Span × Code)}

protected lemma pure (a : α) : ReportsAt env [] (pure a) := by
  refine ⟨.pure a, fun s => ?_⟩
  rw [reports_eq (append_nil _).symm]
  exact .refl _

protected lemma bind {f : α → Rule β} (hx : ReportsAt env places x)
    (hf : ∀ a, ReportsAt env later (f a)) : ReportsAt env (places ++ later) (x >>= f) := by
  refine ⟨?_, fun s => ?_⟩
  · rw [ofRule_bind]
    exact hx.1.bind fun a => (hf a).1
  · rw [ofRule_bind, reports_bind hx.1 (fun a => (hf a).1), map_append]
    exact (hx.2 s).append ((hf _).2 _)

lemma mono (hx : ReportsAt env places x) (h : places.Sublist later) : ReportsAt env later x :=
  ⟨hx.1, fun s => (hx.2 s).trans h⟩

lemma andPure (hx : ReportsAt env places x) (f : α → β) :
    ReportsAt env places (x >>= fun a => pure (f a)) := by
  simpa using hx.bind fun a => .pure (f a)

lemma report (finding : Finding) (span : Span) :
    ReportsAt env [(some span, finding.code)] (report finding span) := by
  have hone (s : State) : (ofRule env (.report finding span)).reports s = [finding.toDiagnostic span] :=
    reports_eq (toList_push _ _)
  exact ⟨.lift (.report _) trivial, fun s => hone s ▸ .refl _⟩

lemma reportIf (condition : Bool) (finding : Finding) (span : Span) :
    ReportsAt env [(some span, finding.code)] (reportIf condition finding span) := by
  cases condition with
  | true => exact .report finding span
  | false => exact (ReportsAt.pure ()).mono (nil_sublist _)

lemma act {action : Action α} (h : action.Steady)
    (hsame : ∀ s, (action.step s).2.diagnostics = s.diagnostics) : ReportsAt env [] (perform action) := by
  refine ⟨.lift action h, fun s => ?_⟩
  have hrun : ((ofRule env (perform action)).run s).2.diagnostics = s.diagnostics := hsame s
  rw [reports_eq (by rw [hrun, append_nil])]
  exact .refl _

lemma record (id : ExprId) (ty : Ty) : ReportsAt env [] (record id ty) := .act trivial fun _ => rfl

end ReportsAt

lemma arithmeticType_reportsAt (op : BinaryOp) (left right : Ty) (span : Span) :
    ReportsAt env [(some span, .arithmeticOperand)] (arithmeticType op left right span) := by
  have hpure (ty : Ty) : ReportsAt env [(some span, .arithmeticOperand)] (pure ty : Rule Ty) :=
    (ReportsAt.pure ty).mono (nil_sublist _)
  unfold arithmeticType
  split
  · exact hpure _
  split
  · exact hpure _
  split
  · split
    · exact hpure _
    · exact (ReportsAt.report (.concatenation left right) span).andPure _
  split
  · exact hpure _
  · exact (ReportsAt.report (.arithmeticOperands op left right) span).andPure _

lemma binaryType_eq_arithmetic (hop : op.operandCode? = some .arithmeticOperand)
    (left right : ExprId) (hint : Option Ty) (span : Span) :
    binaryType env op left right hint span = operandTypes env left right hint >>= fun types =>
      arithmeticType op types.1 types.2 span := by
  cases op with
  | add | subtract | multiply | divide | modulo | bitOr => rfl
  | _ => cases hop

lemma binaryType_eq_operandTypes (env : Env)
    (hop : op.operandCode? = some code) (left right : ExprId) (hint : Option Ty) (span : Span) :
    ∃ result : Ty × Ty → Rule Ty, (∀ types, ReportsAt env [(some span, code)] (result types)) ∧
      binaryType env op left right hint span =
        operandTypes env left right (op.operandHint (.value hint)) >>= result := by
  cases op with
  | is | and | or => cases hop
  | equal | notEqual =>
    cases hop
    exact ⟨_, fun types => (ReportsAt.reportIf _ (.equalityOperands ..) span).andPure _, rfl⟩
  | greater | greaterEqual | less | lessEqual =>
    cases hop
    exact ⟨_, fun types => (ReportsAt.reportIf _ (.orderingOperands ..) span).andPure _, rfl⟩
  | add | subtract | multiply | divide | modulo | bitOr =>
    cases hop
    exact ⟨_, fun types => arithmeticType_reportsAt _ types.1 types.2 span, rfl⟩

lemma expression_eq_operandTypes {id left right : ExprId}
    (hkind : env.exprKind id = .binary op left right) (hop : op.operandCode? = some code)
    (role : Role) :
    let span := some (env.exprSpan id)
    ∃ result : Ty × Ty → Rule Ty,
      (∀ types, ReportsAt env [(span, code), (span, .invalidAssignmentTarget)] (result types)) ∧
        expression env role id = operandTypes env left right (op.operandHint role) >>= result := by
  have hrecord (ty : Ty) : ReportsAt env [] (do record id ty; return ty) :=
    (ReportsAt.record id ty).andPure _
  cases role with
  | value hint =>
    obtain ⟨result, hresult, heq⟩ :=
      binaryType_eq_operandTypes env hop left right hint (env.exprSpan id)
    refine ⟨fun types => result types >>= fun ty => do record id ty; return ty, fun types => ?_, ?_⟩
    · exact ((hresult types).bind hrecord).mono (by simp)
    · simp only [expression, roleType, valueType, hkind, heq, bind_assoc]
  | target =>
    obtain ⟨result, hresult, heq⟩ :=
      binaryType_eq_operandTypes env hop left right none (env.exprSpan id)
    have hnone : op.operandHint .target = op.operandHint (.value none) := by
      cases op <;> rfl
    refine ⟨fun types => result types >>= fun ty => do
      report .invalidAssignmentTarget (env.exprSpan id); record id ty; return ty, fun types => ?_, ?_⟩
    · refine (hresult types).bind fun ty => ?_
      exact (ReportsAt.report .invalidAssignmentTarget (env.exprSpan id)).bind fun _ => hrecord ty
    · simp only [expression, roleType, targetType, valueType, hkind, heq, hnone, bind_assoc, pure_bind]

end Rule

/-- What was reported stays in front when an expression or a statement is checked, in any state. An
operator on two operands puts what its left operand reports before what its right operand reports, even
if the right one is checked first, and what it reports itself comes last. -/
theorem reports_in_source_order (env : Env) (s : State) :
    (∀ role id, s.diagnostics.entries.toList <+:
      ((Check.expr env role id).run s).2.diagnostics.entries.toList) ∧
    (∀ id, s.diagnostics.entries.toList <+:
      ((Check.stmt env id).run s).2.diagnostics.entries.toList) ∧
    ∀ role id op left right code, env.program.AcyclicExpr id →
      env.exprKind id = .binary op left right → op.operandCode? = some code →
      ∃ own, (Check.expr env role id).reports s =
          (Check.operandReports env left right (op.operandHint role) s).1 ++
            (Check.operandReports env left right (op.operandHint role) s).2 ++ own ∧
        (own.map (·.code)).Sublist [code, .invalidAssignmentTarget] ∧
        ∀ d ∈ own, d.span = some (env.exprSpan id) := by
  refine ⟨fun role id => ?_, fun id => ?_, fun role id op left right code hacyclic hkind hop => ?_⟩
  · exact ⟨_, ((Check.expr_appends env role id).toList_diagnostics s).symm⟩
  · exact ⟨_, ((Check.stmtWithin_appends env _ id).toList_diagnostics s).symm⟩
  · obtain ⟨result, hresult, heq⟩ := Rule.expression_eq_operandTypes hkind hop role
    have hoperands : (Check.ofRule env (Rule.operandTypes env left right (op.operandHint role))).Appends :=
      Check.ofRule_appends (.operands _ rfl trivial trivial)
    rw [Check.expr_eq_ofRule role hacyclic.ends, heq, Check.ofRule_bind,
      Check.reports_bind hoperands (fun types => (hresult types).1), Check.operandTypes_reports]
    refine ⟨_, rfl, ?_, fun d hd => ?_⟩
    · simpa [Function.comp_def] using ((hresult _).2 _).map Prod.snd
    · have hplace := ((hresult _).2 _).subset (mem_map_of_mem hd)
      simp only [mem_cons, Prod.mk.injEq, not_mem_nil, or_false, ← and_or_left] at hplace
      exact hplace.1

/-- A literal that is too large, added to a name that is not declared. -/
def Program.literalFirst : Program where
  expressions := #[⟨{ column := 1 }, .literal (.int "99999999999")⟩, ⟨{ column := 15 }, .name "y"⟩,
    ⟨{}, .binary .add ⟨0⟩ ⟨1⟩⟩]

theorem reports_in_source_order_literalFirst :
    let env : Env := ⟨.literalFirst, {}⟩
    env.program.AcyclicExpr ⟨2⟩ ∧ env.exprKind ⟨2⟩ = .binary .add ⟨0⟩ ⟨1⟩ ∧
      BinaryOp.add.operandCode? = some .arithmeticOperand ∧
      ∃ own, (Check.expr env (.value none) ⟨2⟩).reports {} =
          (Check.operandReports env ⟨0⟩ ⟨1⟩ none {}).1 ++
            (Check.operandReports env ⟨0⟩ ⟨1⟩ none {}).2 ++ own ∧
        (own.map (·.code)).Sublist [.arithmeticOperand, .invalidAssignmentTarget] ∧
        ∀ d ∈ own, d.span = some (env.exprSpan ⟨2⟩) := by
  have hacyclic : Program.literalFirst.AcyclicExpr ⟨2⟩ :=
    fun a _ => Program.exprs_acyclic_of_descending (by decide) a
  exact ⟨hacyclic, rfl, rfl,
    (reports_in_source_order ⟨.literalFirst, {}⟩ {}).2.2 (.value none) ⟨2⟩ .add ⟨0⟩ ⟨1⟩ _ hacyclic rfl
      rfl⟩

end StaticTyping
