import StaticTyping.Proofs.Scopes.Effects
import StaticTyping.Proofs.Scopes.Narrowing

/-! What may change. An assignment changes a variable, and so may a call that binds it to a mutable
parameter. Each has a rule of its own for the variables that it takes. -/

namespace StaticTyping

open Rule Finding Check

variable {env : Env} {s : State} {id : ExprId} {name : String} {symbol : SymbolId} {param : ParamInfo}

lemma Symbol.assignmentFinding?_eq_none_iff {symbol : Symbol} :
    symbol.assignmentFinding? name = none ↔ symbol.kind ≠ .function ∧ symbol.kind ≠ .variant ∧
      symbol.isConst = false ∧ (symbol.isParameter → symbol.isMutable) := by
  unfold assignmentFinding? mutationFinding?
  cases symbol.kind <;> cases symbol.isConst <;> cases symbol.isParameter <;> simp

lemma Check.reports_checkMutable (hkind : env.exprKind id = .name name)
    (hsymbol : s.scopes.lookupValue name = some symbol) (hparam : param.isMutable) :
    let declared := s.symbols.get symbol
    (ofRule env (checkMutable env param (.expr id))).reports s =
      if declared.kind == .value && declared.isMutable && !declared.isConst then []
      else [(mutableArgument param.name).toDiagnostic (env.exprSpan id)] := by
  intro declared
  have hread : (ofRule env (.symbol symbol)).run s = (declared, s) := rfl
  refine reports_eq ?_
  simp only [checkMutable, hparam, ↓reduceIte, isMutableVariable, hkind, ofRule_bind, run_bind,
    run_lookupValue hsymbol, hread]
  cases declared.kind == .value && declared.isMutable && !declared.isConst with
  | true => exact (List.append_nil _).symm
  | false => exact Diagnostics.toList_push _ _

/-- In the states of a check nothing is mutable but values that are not constant. -/
lemma Symbol.Proper.isMutable_iff {symbol : Symbol} (h : symbol.Proper) :
    symbol.isMutable ↔ symbol.kind = .value ∧ symbol.isMutable ∧ symbol.isConst = false := by
  constructor
  · intro hmutable
    refine ⟨h.flagged (by simp [hmutable]), hmutable, Bool.eq_false_iff.mpr fun hconst => ?_⟩
    rw [(h.const hconst).1] at hmutable
    cases hmutable
  · exact fun h => h.2.1

/-- A local is neither constant nor mutable, and it is no parameter. -/
lemma Check.lookup_declareLocal (env : Env) (hnew : s.scopes.inner.values.lookup name = none) (ty : Ty)
    (span : Span) : let t := ((ofRule env (declareLocal name ty span)).run s).2
    t.scopes.lookupValue name = some ⟨s.symbols.size⟩ ∧
      t.symbols.get ⟨s.symbols.size⟩ = { name, kind := .value, span, ty := some ty } := by
  intro t
  obtain ⟨scopes, hdeclare, hlookup⟩ : ∃ scopes,
      s.scopes.declareValue name ⟨s.symbols.size⟩ = .ok scopes ∧
        scopes.lookupValue name = some ⟨s.symbols.size⟩ := by
    simp [ScopeStack.declareValue, hnew, ScopeStack.lookupValue, ScopeStack.frames]
  have ht : t = { s with
      symbols := (s.symbols.alloc { name, kind := .value, span, ty := some ty }).2, scopes } := by
    simp only [t, declareLocal, introduce, declareValue, ofRule_bind, run_bind, run_ofRule_perform,
      Action.step, SymbolTable.alloc, hdeclare]
    rfl
  rw [ht]
  exact ⟨hlookup, s.symbols.get_alloc_new _⟩

/-- Which names an assignment takes, and which a mutable parameter, in any state. What may be passed may
be assigned, and in the states of a check that is what is declared mutable. A value may be assigned and
not passed if it is declared neither constant nor mutable and is no parameter, as it is with the variable
of a loop and with what a pattern binds: they are declared as locals. -/
theorem mutability_rules_compared (hkind : env.exprKind id = .name name)
    (hsymbol : s.scopes.lookupValue name = some symbol) (hparam : param.isMutable) :
    let declared := s.symbols.get symbol
    let assigned := ∀ d ∈ (Check.expr env .target id).reports s,
      d.code ∉ [.constAssignment, .parameterAssignment, .invalidAssignmentTarget]
    let passed := ∀ d ∈ (ofRule env (checkMutable env param (.expr id))).reports s,
      d.code ≠ .mutableArgument
    (passed ↔ declared.kind = .value ∧ declared.isMutable ∧ declared.isConst = false) ∧
      (assigned ↔ declared.kind ≠ .function ∧ declared.kind ≠ .variant ∧
        declared.isConst = false ∧ (declared.isParameter → declared.isMutable)) ∧
      (passed → assigned) ∧
      (declared.kind = .value → (assigned ∧ ¬ passed ↔
        declared.isConst = false ∧ declared.isParameter = false ∧ declared.isMutable = false)) ∧
      (∀ imports, s ∈ (Check.program env imports).states {} → (passed ↔ declared.isMutable)) ∧
      ∀ before ty span, before.scopes.inner.values.lookup name = none →
        ((ofRule env (declareLocal name ty span)).run before).2 = s → assigned ∧ ¬ passed := by
  intro declared assigned passed
  have hassigned : assigned ↔ declared.assignmentFinding? name = none := by
    have hreports : (Check.expr env .target id).reports s =
        (declared.assignmentFinding? name).toList.map (·.toDiagnostic (env.exprSpan id)) := by
      rw [reports_name_target (acyclicExpr_of_name hkind).ends hkind, hsymbol]
    simp only [assigned, hreports]
    cases hfinding : declared.assignmentFinding? name with
    | none => simp
    | some finding =>
      refine iff_of_false (fun h => h _ (.head _) ?_) (by simp)
      exact Symbol.code_of_assignmentFinding? hfinding
  have hpassed : passed ↔ declared.kind = .value ∧ declared.isMutable ∧ declared.isConst = false := by
    simp only [passed, reports_checkMutable hkind hsymbol hparam]
    cases declared.kind <;> cases declared.isMutable <;> cases declared.isConst <;>
      simp [toDiagnostic, code]
  rw [Symbol.assignmentFinding?_eq_none_iff] at hassigned
  refine ⟨hpassed, hassigned, ?_, ?_, fun imports hs => ?_, fun before ty span hnew hs => ?_⟩
  · rw [hpassed, hassigned]
    rintro ⟨hvalue, hmutable, hconst⟩
    simp [hvalue, hmutable, hconst]
  · intro hvalue
    rw [hpassed, hassigned, hvalue]
    cases declared.isConst <;> cases declared.isParameter <;> cases declared.isMutable <;> simp
  · exact hpassed.trans (program_proper env imports s hs symbol).isMutable_iff.symm
  · subst hs
    obtain ⟨hlookup, hlocal⟩ := lookup_declareLocal env hnew ty span
    obtain rfl := Option.some.inj (hsymbol.symm.trans hlookup)
    simp [hpassed, hassigned, declared, hlocal]

/-- A loop whose body writes to the variable of the loop and passes it for a mutable parameter. -/
def loopWrite : Env where
  program := {
    expressions := #[⟨{}, .literal (.bool true)⟩, ⟨{}, .array [⟨0⟩]⟩, ⟨{}, .name "v"⟩,
      ⟨{}, .assign none ⟨2⟩ ⟨0⟩⟩, ⟨{}, .name "f"⟩, ⟨{}, .call ⟨4⟩ [⟨{}, .positional, ⟨2⟩⟩]⟩]
    statements := #[
      ⟨{}, .function {
        name := ⟨"f", {}⟩
        params := [{ name := "x", isMutable := true, type := some (.named {} "bool" []) }] }⟩,
      ⟨{}, .expr ⟨3⟩⟩, ⟨{}, .expr ⟨5⟩⟩, ⟨{}, .forLoop ⟨"v", {}⟩ ⟨1⟩ { statements := [⟨1⟩, ⟨2⟩] }⟩]
    items := [⟨0⟩, ⟨3⟩] }
  options := {}

def loopState : State :=
  (((Check.program loopWrite []).states {}).find? (·.scopes.lookupValue "v" == some ⟨2⟩)).getD {}

theorem mutability_rules_compared_loop :
    let param : ParamInfo := { name := "x", ty := .unknown, isMutable := true }
    loopState.scopes.lookupValue "v" = some ⟨2⟩ ∧ (loopState.symbols.get ⟨2⟩).kind = .value ∧
      (∀ d ∈ (Check.expr loopWrite .target ⟨2⟩).reports loopState,
        d.code ∉ [.constAssignment, .parameterAssignment, .invalidAssignmentTarget]) ∧
      ¬ ∀ d ∈ (ofRule loopWrite (checkMutable loopWrite param (.expr ⟨2⟩))).reports loopState,
        d.code ≠ .mutableArgument := by
  intro param
  have hkind : loopWrite.exprKind ⟨2⟩ = .name "v" := rfl
  have hparam : param.isMutable := rfl
  have hsymbol : loopState.scopes.lookupValue "v" = some ⟨2⟩ := by decide +kernel
  have hvalue : (loopState.symbols.get ⟨2⟩).kind = .value := by decide +kernel
  obtain ⟨-, -, -, hdiffers, -⟩ := mutability_rules_compared hkind hsymbol hparam
  exact ⟨hsymbol, hvalue, (hdiffers hvalue).mpr (by decide +kernel)⟩

/-- The variable of a loop may be assigned, and may not be passed for a mutable parameter. -/
theorem loop_variable_assignable :
    (check loopWrite.program loopWrite.options []).diagnostics.entries.toList =
      [(mutableArgument "x").toDiagnostic {}] := by decide +kernel

end StaticTyping
