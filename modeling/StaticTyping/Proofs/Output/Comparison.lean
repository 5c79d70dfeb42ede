import StaticTyping.Proofs.Output.Sequence

/-! The order of what is compared. All that it makes a difference to is which operand is checked first
and so hints at the type of the other. -/

namespace StaticTyping

open Finding Rule Check Prod

variable {env : Env} {id left right : ExprId} {s : State}

/-- There is no assignment in the expression. -/
def Program.Unwriting (p : Program) (id : ExprId) : Prop :=
  ∀ a, Relation.ReflTransGen p.ExprEdge id a → ∀ op target value, (p.expr a).kind ≠ .assign op target value

def State.AliasesKnown (s : State) : Prop :=
  ∀ id, (s.symbols.get id).aliasTarget ≠ none → (s.symbols.get id).ty ≠ none

namespace Check

variable {α : Type}

/-- Where every alias has its type, the check changes nothing but what is put out. -/
def PutsOut (x : Check α) : Prop := ∀ s : State, s.AliasesKnown → (x.run s).2.quiet = s.quiet

lemma PutsOut.closed : Closed @PutsOut where
  pure _ _ _ := rfl
  bind {α β x f} hx hf s hs := by
    have hsymbols : (x.run s).2.symbols = s.symbols :=
      (State.mk.inj (hx s hs)).1
    rw [run_bind, ← hx s hs]
    exact hf _ _ fun id => hsymbols ▸ hs id

lemma expand_putsOut (symbol : SymbolId) (span : Span) (cyclic : Cyclic) :
    (expand [] symbol span cyclic).PutsOut := by
  intro s hs
  show (((expandAlias [] symbol span cyclic).toCheck
    { expand := expandWithin s.symbols.size }).run s).2.quiet = s.quiet
  have hread (visits : Visits) : ((Rule.symbol symbol).toCheck visits).run s =
    (s.symbols.get symbol, s) := rfl
  rw [expandAlias, toCheck_bind, run_bind, hread]
  cases hty : (s.symbols.get symbol).ty with
  | some ty => rfl
  | none =>
    cases htarget : (s.symbols.get symbol).aliasTarget with
    | none => rfl
    | some target => exact absurd hty (hs symbol (by simp [htarget]))

lemma expr_putsOut (h : env.program.Unwriting id) (role : Role) : (expr env role id).PutsOut := by
  unfold expr
  generalize env.program.exprDepth = depth
  induction depth generalizing role id with
  | zero => exact fun s _ => rfl
  | succ depth ih =>
    let acc : Account Unit :=
      { env, visits := env.program.Unwriting, one := fun _ => (), tree := fun _ => (), narrows := False }
    have hdescends : acc.Descends := .of_nowhere rfl rfl rfl (fun _ _ => rfl)
      fun a b (ha : env.program.Unwriting a) hb c hc => ha c (.head hb hc)
    have hrule := expression_does hdescends (fun c hc a ha => h a (.head hc ha)) (fun _ _ _ => trivial)
      (h id .refl) role
    refine hrule.closed PutsOut.closed not_false (fun action haction _ s _ => ?_) (fun role c hc => ih hc role)
      expand_putsOut
    rw [run_lift]
    by_cases hsilent : action.Silent
    · rw [hsilent.step_snd]
      rfl
    · cases action with
      | diagnosticCount | record | hoist => rfl
      | _ => exact absurd haction hsilent

def typeIn (env : Env) (s : State) (hint : Option Ty) (id : ExprId) : Ty :=
  ((expr env (.value hint) id).run s).1

/-- Neither expression has another type if the type of the other one is expected of it. -/
def Unhinted (env : Env) (left right : ExprId) (s : State) : Prop :=
  typeIn env s (some (typeIn env s none left)) right = typeIn env s none right ∧
    typeIn env s (some (typeIn env s none right)) left = typeIn env s none left

lemma typeIn_after (h : env.program.Unwriting left) (hs : s.AliasesKnown) (role : Role)
    (hint : Option Ty) : typeIn env ((expr env role left).run s).2 hint right = typeIn env s hint right := by
  have happends := expr_appends env (.value hint) right
  simp only [typeIn]
  rw [happends.run_eq ((expr env role left).run s).2, happends.run_eq s, expr_putsOut h role s hs]

lemma operandTypes_fst (env : Env) (left right : ExprId) (s : State) :
    ((ofRule env (operandTypes env left right none)).run s).1 =
      if env.program.isLiteral left && !env.program.isLiteral right then
        (typeIn env ((expr env (.value none) right).run s).2 (some (typeIn env s none right)) left,
          typeIn env s none right)
      else (typeIn env s none left,
        typeIn env ((expr env (.value none) left).run s).2 (some (typeIn env s none left)) right) := by
  unfold operandTypes
  split
  all_goals
    simp only [ofRule, toCheck_bind, toCheck_perform, toCheck_visit, run_bind]
    rfl

lemma operandTypes_swap (h : env.program.isLiteral left ≠ env.program.isLiteral right ∨
      env.program.Unwriting left ∧ env.program.Unwriting right ∧ s.AliasesKnown ∧
        Unhinted env left right s) :
    ((ofRule env (operandTypes env right left none)).run s).1 =
      ((ofRule env (operandTypes env left right none)).run s).1.swap := by
  rw [operandTypes_fst, operandTypes_fst]
  rcases h with hliteral | ⟨hleft, hright, hs, hunhinted⟩
  · cases hl : env.program.isLiteral left <;> cases hr : env.program.isLiteral right <;>
      simp [hl, hr] at hliteral ⊢
  · simp only [typeIn_after hleft hs, typeIn_after hright hs, hunhinted.1, hunhinted.2, ite_self,
      swap_prod_mk]

/-- What a comparison reports itself, after all that its operands report. -/
def comparisonReports (env : Env) (id left right : ExprId) (s : State) : List Diagnostic :=
  let operands := operandReports env left right none s
  ((expr env (.value none) id).reports s).drop (operands.1 ++ operands.2).length

lemma comparisonReports_eq {op : BinaryOp} (hends : env.program.ExprEnds id)
    (hkind : env.exprKind id = .binary op left right)
    (hop : op.operandCode? = some .equalityOperand) (s : State) :
    let types := ((ofRule env (operandTypes env left right none)).run s).1
    comparisonReports env id left right s =
      if types.1.assignable types.2 || types.2.assignable types.1 then []
      else [(equalityOperands types.1 types.2).toDiagnostic (env.exprSpan id)] := by
  intro types
  let result (types : Ty × Ty) : Rule Ty := do
    reportIf (!types.1.assignable types.2 && !types.2.assignable types.1)
      (.equalityOperands types.1 types.2) (env.exprSpan id)
    record id .bool
    return .bool
  have hresult : expression env (.value none) id = operandTypes env left right none >>= result := by
    simp only [expression, roleType, valueType, hkind]
    cases op with
    | equal | notEqual => simp only [binaryType, bind_assoc, pure_bind, result]
    | _ => cases hop
  have happends (types : Ty × Ty) : (ofRule env (result types)).Appends :=
    ((ReportsAt.reportIf _ _ _).bind fun _ => (ReportsAt.record id .bool).andPure _).1
  rw [comparisonReports, expr_eq_ofRule _ hends, hresult, ofRule_bind,
    reports_bind (ofRule_appends (.operands none rfl trivial trivial)) happends, operandTypes_reports,
    List.drop_left]
  refine reports_eq ?_
  simp only [result]
  cases types.1.assignable types.2 <;> cases types.2.assignable types.1
  · exact Diagnostics.toList_push _ _
  all_goals exact (List.append_nil _).symm

end Check

/-- Whether two operands can be compared does not depend on their order if just one of them is a literal.
Nor does it if there are no assignments in them and a hint makes no difference to them. -/
theorem comparison_order_irrelevant {op op' : BinaryOp} {id id' : ExprId}
    (hacyclic : env.program.AcyclicExpr id) (hacyclic' : env.program.AcyclicExpr id')
    (hkind : env.exprKind id = .binary op left right)
    (hkind' : env.exprKind id' = .binary op' right left)
    (hop : op.operandCode? = some .equalityOperand) (hop' : op'.operandCode? = some .equalityOperand)
    (h : env.program.isLiteral left ≠ env.program.isLiteral right ∨
      env.program.Unwriting left ∧ env.program.Unwriting right ∧ s.AliasesKnown ∧
        Check.Unhinted env left right s) :
    (∃ d ∈ Check.comparisonReports env id left right s, d.code = .equalityOperand) ↔
      ∃ d ∈ Check.comparisonReports env id' right left s, d.code = .equalityOperand := by
  rw [comparisonReports_eq hacyclic.ends hkind hop,
    comparisonReports_eq hacyclic'.ends hkind' hop', operandTypes_swap h, fst_swap,
    snd_swap, Bool.or_comm]
  split
  · simp
  · simp [toDiagnostic, code]

/-- A name that stands for an array, compared with an array of a number and with the number, each in both
orders. -/
def arrayComparisons : Env where
  program := {
    expressions := #[⟨{}, .literal (.int "1")⟩, ⟨{}, .array [⟨0⟩]⟩, ⟨{}, .name "x"⟩,
      ⟨{}, .binary .equal ⟨1⟩ ⟨2⟩⟩, ⟨{}, .binary .equal ⟨2⟩ ⟨1⟩⟩, ⟨{}, .binary .equal ⟨0⟩ ⟨2⟩⟩,
      ⟨{}, .binary .equal ⟨2⟩ ⟨0⟩⟩]
    statements := #[
      ⟨{}, .bind { name := ⟨"x", {}⟩, type := some (.named {} "Array" [.named {} "i64" []]) }⟩,
      ⟨{}, .expr ⟨3⟩⟩, ⟨{}, .expr ⟨4⟩⟩] }
  options := {}

theorem comparison_order_irrelevant_number :
    let s := ((Check.stmt arrayComparisons ⟨0⟩).run {}).2
    arrayComparisons.program.isLiteral ⟨0⟩ ≠ arrayComparisons.program.isLiteral ⟨2⟩ ∧
      ∃ d ∈ Check.comparisonReports arrayComparisons ⟨6⟩ ⟨2⟩ ⟨0⟩ s, d.code = .equalityOperand := by
  intro s
  have hliteral : arrayComparisons.program.isLiteral ⟨0⟩ ≠ arrayComparisons.program.isLiteral ⟨2⟩ := by
    decide
  have hacyclic (id : ExprId) : arrayComparisons.program.AcyclicExpr id :=
    fun a _ => Program.exprs_acyclic_of_descending (by decide) a
  have hfound : ∃ d ∈ comparisonReports arrayComparisons ⟨5⟩ ⟨0⟩ ⟨2⟩ s,
      d.code = .equalityOperand := by decide +kernel
  exact ⟨hliteral, (comparison_order_irrelevant (hacyclic ⟨5⟩) (hacyclic ⟨6⟩) rfl rfl rfl rfl
    (.inl hliteral)).mp hfound⟩

/-- With the array of the number on the left the two arrays cannot be compared, and with it on the right
they can. -/
theorem array_comparison_depends_on_order :
    (check { arrayComparisons.program with items := [⟨0⟩, ⟨1⟩] } {} []).diagnostics.entries.toList.map
        (·.code) = [.equalityOperand] ∧
      (check { arrayComparisons.program with items := [⟨0⟩, ⟨2⟩] } {} []).diagnostics.isEmpty := by
  decide +kernel

end StaticTyping
