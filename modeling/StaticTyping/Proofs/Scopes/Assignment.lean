import StaticTyping.Proofs.Order.Settling
import StaticTyping.Proofs.Scopes.Lookup
import StaticTyping.Proofs.Stored.Run

/-! Writes to narrowed names. A write to a bare name ends its narrowing, however far out that was
established. A write to the same name in parentheses is checked as a write to it, and yet ends no
narrowing. -/

namespace StaticTyping

open Rule Check

def ScopeStack.written (scopes : ScopeStack) : ExprKind → ScopeStack
  | .name name => scopes.clearNarrowing name
  | _ => scopes

namespace Check

variable {env : Env} {id target value : ExprId} {op : Option BinaryOp}

def valued (env : Env) (target value : ExprId) (s : State) : State :=
  let (declared, after) := (expr env .target target).run s
  ((expr env (.value (some declared)) value).run after).2

lemma scopes_of_silent {α : Type} {x : Rule α} (hx : Silent True [] x) (s : State) :
    ((ofRule env x).run s).2.scopes = s.scopes := by
  have hmeets : (ofRule env x).Meets (Action.performing fun action _ => action.Proceeds) s
      fun _ t => ∃ w, t.outline = w ∧ w = s.outline :=
    toCheck_meets (visits_fulfil env (B := fun _ => False) fun _ h => h.elim)
      (hx.meets s.outline) rfl
  obtain ⟨-, _, rfl, hsame⟩ := meets_performing_iff.mp hmeets
  exact congrArg Outline.scopes hsame

lemma scopes_endNarrowing (target : ExprId) (s : State) :
    ((ofRule env (endNarrowing env target)).run s).2.scopes =
      s.scopes.written (env.exprKind target) := by
  unfold endNarrowing
  cases env.exprKind target <;> rfl

/-- After its target and its value, an assignment only ends narrowing. -/
lemma scopes_assignmentType (op : Option BinaryOp) (target value : ExprId) (span : Span)
    (s : State) : ((ofRule env (assignmentType env op target value span)).run s).2.scopes =
      (valued env target value s).scopes.written (env.exprKind target) := by
  unfold assignmentType
  simp only [ofRule_bind, run_bind, ofRule_visit_eq_expr]
  -- Between the value and the end, types are only computed and compared.
  refine (scopes_of_silent (.pure _) _).trans ?_
  rw [scopes_endNarrowing, scopes_of_silent (reportIf_silent _ _ _ (.inl rfl)),
    scopes_of_silent (assignedType_does ..).silent]
  rfl

lemma scopes_assign (hends : env.program.ExprEnds id)
    (hkind : env.exprKind id = .assign op target value) (role : Role) (s : State) :
    ((expr env role id).run s).2.scopes =
      (valued env target value s).scopes.written (env.exprKind target) := by
  have hrecord (ty : Ty) (t : State) :
      ((ofRule env (do record id ty; return ty)).run t).2.scopes = t.scopes := rfl
  rw [← scopes_assignmentType op target value (env.exprSpan id), expr_eq_ofRule role hends,
    expression, ofRule_bind, run_bind, hrecord]
  cases role with
  | value hint => simp only [roleType, valueType, hkind]
  | target =>
    -- As a target an assignment is wrong, but it is checked as a value first.
    simp only [roleType, targetType, valueType, hkind]
    rw [ofRule_bind, run_bind]
    exact scopes_of_silent ((report_silent _ _ (.inl rfl)).bind fun _ => .pure _) _

lemma keeps_valued (htarget : env.program.ExprEnds target) (hvalue : env.program.ExprEnds value)
    (s : State) : KeepsAll s.scopes.frames (valued env target value s).scopes.frames := by
  have hfirst := (meets_performing_iff.mp (expr_meets htarget .target s)).2.2.scopes
  have hsecond := (meets_performing_iff.mp (expr_meets hvalue
    (.value (some ((expr env .target target).run s).1)) ((expr env .target target).run s).2)).2.2.scopes
  exact hfirst.trans hsecond

end Check

lemma Program.ungroup_of_name {p : Program} {id : ExprId} {name : String}
    (h : (p.expr id).kind = .name name) : p.ungroup id = id := by
  simp [ungroup, exprDepth, ungroupWithin, h]

/-- A target in parentheses is no bare name, and a write to it leaves the scopes as they are. -/
lemma ScopeStack.written_of_grouped {env : Env} {target : ExprId} (scopes : ScopeStack)
    (h : env.program.ungroup target ≠ target) : scopes.written (env.exprKind target) = scopes := by
  cases hkind : env.exprKind target with
  | name name => exact absurd (Program.ungroup_of_name hkind) h
  | _ => rfl

/-- A write to a name in scope, at any point of a check. The name keeps its symbol. If it stands there
bare, it is not narrowed afterwards and has its declared type. If it stands in parentheses, its
narrowing is as the value leaves it. -/
theorem write_ends_narrowing {env : Env} (imports : List Ident) (hacyclic : env.program.Acyclic)
    {s : State} (hs : s ∈ (Check.program env imports).states {}) {id target value : ExprId}
    {op : Option BinaryOp} {name : String} {symbol : SymbolId}
    (hkind : env.exprKind id = .assign op target value)
    (hname : env.exprKind (env.program.ungroup target) = .name name)
    (hsymbol : s.scopes.lookupValue name = some symbol) (role : Role) :
    let t := ((Check.expr env role id).run s).2
    t.scopes.lookupValue name = some symbol ∧
      (env.program.ungroup target = target → t.scopes.isNarrowed name = false ∧
        t.scopes.valueType t.symbols name = .ok (some (t.symbols.get symbol).tyOrUnknown)) ∧
      (env.program.ungroup target ≠ target →
        t.scopes = (Check.valued env target value s).scopes) := by
  intro t
  have hscopes : t.scopes = (valued env target value s).scopes.written (env.exprKind target) :=
    scopes_assign (hacyclic.expr id).ends hkind role s
  have hvalued : (valued env target value s).scopes.lookupValue name = some symbol :=
    (ScopeStack.lookupValue_of_keeps
      (keeps_valued (hacyclic.expr target).ends (hacyclic.expr value).ends s) name).trans hsymbol
  by_cases hbare : env.program.ungroup target = target
  · rw [hbare] at hname
    rw [hname] at hscopes
    have hsize : t.symbols.size = s.symbols.size := (expr_settling env role id s).size
    have hlt : symbol.index < t.symbols.size :=
      hsize ▸ (program_sound env imports s hs).scopes.lookupValue hsymbol
    have htracked : t.scopes.tracked? name = some (.declared symbol) := by
      rw [hscopes, ScopeStack.written, ScopeStack.tracked?_clearNarrowing, hvalued]
      rfl
    refine ⟨?_, fun _ => ⟨?_, ScopeStack.valueType_of_declared htracked hlt⟩, absurd hbare⟩
    · rw [hscopes, ScopeStack.written,
        ScopeStack.lookupValue_of_keeps (ScopeStack.keeps_clearNarrowing _ _), hvalued]
    · rw [hscopes, ScopeStack.written, ScopeStack.isNarrowed, ScopeStack.tracked?_clearNarrowing, hvalued]
      rfl
  · rw [ScopeStack.written_of_grouped _ hbare] at hscopes
    refine ⟨?_, fun h => absurd h hbare, fun _ => hscopes⟩
    rw [hscopes, hvalued]

/-- Where a name is not `null`, `null` is written to it in parentheses, and then it is read as a string.
The last expression is the same write without parentheses. -/
def guardedWrite : Env where
  program := {
    expressions := #[⟨{}, .literal (.string "value")⟩, ⟨{}, .name "name"⟩, ⟨{}, .literal .null⟩,
      ⟨{}, .binary .notEqual ⟨1⟩ ⟨2⟩⟩, ⟨{}, .name "name"⟩, ⟨{}, .group ⟨4⟩⟩, ⟨{}, .literal .null⟩,
      ⟨{}, .assign none ⟨5⟩ ⟨6⟩⟩, ⟨{}, .name "name"⟩, ⟨{}, .assign none ⟨4⟩ ⟨6⟩⟩]
    statements := #[
      ⟨{}, .bind {
        name := ⟨"name", {}⟩, value := some ⟨0⟩
        type := some (.union {} [.named {} "string" [], .named {} "null" []]) }⟩,
      ⟨{}, .expr ⟨7⟩⟩,
      ⟨{}, .bind { name := ⟨"s", {}⟩, type := some (.named {} "string" []), value := some ⟨8⟩ }⟩,
      ⟨{}, .branch ⟨3⟩ { statements := [⟨1⟩, ⟨2⟩] } none⟩]
    items := [⟨0⟩, ⟨3⟩] }
  options := {}

def guardedState : State :=
  (((Check.program guardedWrite []).states {}).find? (·.scopes.isNarrowed "name")).getD {}

lemma guardedState_mem : guardedState ∈ (Check.program guardedWrite []).states {} := by
  exact getD_find?_mem (by decide +kernel) _

lemma guardedState_lookupValue : guardedState.scopes.lookupValue "name" = some ⟨0⟩ := by
  decide +kernel

theorem write_ends_narrowing_bare :
    guardedState ∈ (Check.program guardedWrite []).states {} ∧
      guardedWrite.exprKind ⟨9⟩ = .assign none ⟨4⟩ ⟨6⟩ ∧
      guardedState.scopes.isNarrowed "name" = true ∧
      let t := ((Check.expr guardedWrite (.value none) ⟨9⟩).run guardedState).2
      t.scopes.isNarrowed "name" = false ∧
        t.scopes.valueType t.symbols "name" = .ok (some (t.symbols.get ⟨0⟩).tyOrUnknown) := by
  have hacyclic : guardedWrite.program.Acyclic :=
    Program.acyclic_of_indices (by decide) (by decide)
  have hkind : guardedWrite.exprKind ⟨9⟩ = .assign none ⟨4⟩ ⟨6⟩ := rfl
  have hname : guardedWrite.exprKind (guardedWrite.program.ungroup ⟨4⟩) = .name "name" := rfl
  have hwrite := write_ends_narrowing [] hacyclic guardedState_mem hkind hname
    guardedState_lookupValue (.value none)
  exact ⟨guardedState_mem, hkind, by decide +kernel, hwrite.2.1 rfl⟩

/-- In parentheses the name stays narrowed after the write, and the read goes unreported. -/
theorem grouped_write_keeps_narrowing :
    guardedState ∈ (Check.program guardedWrite []).states {} ∧
      guardedWrite.exprKind ⟨7⟩ = .assign none ⟨5⟩ ⟨6⟩ ∧
      guardedWrite.exprKind (guardedWrite.program.ungroup ⟨5⟩) = .name "name" ∧
      guardedState.scopes.lookupValue "name" = some ⟨0⟩ ∧
      ((Check.expr guardedWrite (.value none) ⟨7⟩).run guardedState).2.scopes.isNarrowed "name" = true ∧
      (check guardedWrite.program guardedWrite.options []).diagnostics.isEmpty :=
  ⟨guardedState_mem, rfl, rfl, guardedState_lookupValue, by decide +kernel, by decide +kernel⟩

end StaticTyping
