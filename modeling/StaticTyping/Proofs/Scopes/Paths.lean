import StaticTyping.Proofs.Scopes.Effects
import StaticTyping.Proofs.Scopes.Narrowing

/-! Writes through paths. A write to a member or to an element changes the value that the path starts
from, and what that value forbids is reported once, however long the path is. -/

namespace StaticTyping

open Rule Check Program Diagnostics List

/-- A path of members, indices and parentheses that starts from a name, and what it is inside the
parentheses around it. -/
inductive Program.Path (p : Program) (name : String) : ExprId → ExprId → Prop
  | name {id : ExprId} (hkind : (p.expr id).kind = .name name) : Path p name id id
  | member {id object inner : ExprId} {property : Ident} (h : Path p name object inner)
      (hkind : (p.expr id).kind = .member object property) : Path p name id id
  | index {id object inner position : ExprId} (h : Path p name object inner)
      (hkind : (p.expr id).kind = .index object position) : Path p name id id
  | group {id grouped inner : ExprId} (h : Path p name grouped inner)
      (hkind : (p.expr id).kind = .group grouped) : Path p name id inner

def ExprKind.isName : ExprKind → Bool
  | .name _ => true
  | _ => false

/-- Why a write may not change what a symbol stands for: the name itself, or something in its value. -/
def Symbol.writeFinding? (symbol : Symbol) (name : String) (bare : Bool) : Option Finding :=
  if symbol.isConst then some (.constAssignment symbol.name)
  else if symbol.isParameter && !symbol.isMutable then some (.parameterAssignment symbol.name)
  else if bare && (symbol.kind == .function || symbol.kind == .variant) then
    some (.symbolAssignment symbol.kind name)
  else none

lemma Symbol.Proper.assignmentFinding?_eq {symbol : Symbol} (h : symbol.Proper) (name : String) :
    symbol.assignmentFinding? name = symbol.writeFinding? name true := by
  unfold assignmentFinding? writeFinding? mutationFinding?
  cases hkind : symbol.kind with
  | function | variant =>
    have hflagged := h.flagged
    have hnone : symbol.isConst = false ∧ symbol.isParameter = false := by simp_all
    simp [hnone]
  | _ => simp

lemma Symbol.Learns.mutationFinding?_eq {a b : Symbol} (h : a.Learns b) :
    b.mutationFinding? = a.mutationFinding? := by
  cases h <;> rfl

lemma Program.Path.rootNameWithin {p : Program} {id inner : ExprId} {name : String} {depth : Nat}
    (h : p.Path name id inner) (hends : EndsWithin p.exprChildren (fun _ => True) depth id) :
    p.rootNameWithin depth id = some name := by
  induction h generalizing depth with
  | name hkind =>
    cases depth with
    | zero => exact hends.elim
    | succ depth => simp [Program.rootNameWithin, hkind]
  | member _ hkind ih | index _ hkind ih | group _ hkind ih =>
    cases depth with
    | zero => exact hends.elim
    | succ depth =>
      rw [Program.rootNameWithin, hkind]
      exact ih (hends.2 _ (by simp [exprChildren, hkind, ExprKind.children]))

namespace Check

variable {env : Env} {id inner : ExprId} {name : String} {symbol : SymbolId} {s : State}

/-- What the value of a path reports where the path is written to. A name is not read there. -/
def readReports (env : Env) (id : ExprId) (s : State) : List Diagnostic :=
  if (env.exprKind id).isName then [] else (expr env (.value none) id).reports s

def writeReports (env : Env) (id : ExprId) (name : String) (declared : Symbol) : List Diagnostic :=
  (declared.writeFinding? name (env.exprKind id).isName).toList.map (·.toDiagnostic (env.exprSpan id))

/-- A member or an element is read, and then the start of the path is looked at. -/
lemma reports_access_target (hends : env.program.ExprEnds id) (hpath : env.program.Path name id id)
    (hname : (env.exprKind id).isName = false)
    (htarget : targetType env id (valueType env id none) = do
      let ty ← valueType env id none
      checkRoot env id (env.exprSpan id)
      return ty)
    (hsymbol : s.scopes.lookupValue name = some symbol) :
    (expr env .target id).reports s =
      readReports env id s ++ writeReports env id name (s.symbols.get symbol) := by
  -- What there is after reading is what there is after the check of the value, apart from its type.
  obtain ⟨ty, t, hrun⟩ : ∃ ty t, (ofRule env (valueType env id none)).run s = (ty, t) := ⟨_, _, rfl⟩
  have hvalue : (expr env (.value none) id).run s = (ty, ((Action.record id ty).step t).2) := by
    rw [expr_eq_ofRule _ hends, expression, roleType, ofRule_bind, run_bind, hrun]
    rfl
  have hread : t.diagnostics.entries.toList =
      s.diagnostics.entries.toList ++ (expr env (.value none) id).reports s := by
    rw [← (expr_appends env (.value none) id).toList_diagnostics s, hvalue]
    rfl
  have hendures := (expr_endures hends (.value none) (run_mem_states _ s)).1
  rw [hvalue] at hendures
  have hbound : t.scopes.lookupValue name = some symbol :=
    (ScopeStack.lookupValue_of_keeps hendures.scopes name).trans hsymbol
  have hfinding : (t.symbols.get symbol).mutationFinding? =
      (s.symbols.get symbol).writeFinding? name false :=
    (Symbol.Learns.mutationFinding?_eq (hendures.symbols symbol)).trans
      (by simp [Symbol.mutationFinding?, Symbol.writeFinding?])
  have hroot : env.program.rootName? id = some name := hpath.rootNameWithin hends
  have hdeclared : (ofRule env (.symbol symbol)).run t = (t.symbols.get symbol, t) := rfl
  refine reports_eq ?_
  rw [expr_eq_ofRule _ hends, expression, roleType, htarget, readReports, writeReports, hname,
    ← append_assoc]
  simp only [ofRule_bind, run_bind, hrun, checkRoot, hroot, run_lookupValue hbound, hdeclared, hfinding]
  cases (s.symbols.get symbol).writeFinding? name false with
  | none => exact hread.trans (append_nil _).symm
  | some finding => exact (toList_push _ _).trans (congrArg (· ++ _) hread)

lemma reports_path_target (hpath : env.program.Path name id inner) (hends : env.program.ExprEnds id)
    (hsymbol : s.scopes.lookupValue name = some symbol) (hproper : (s.symbols.get symbol).Proper) :
    (expr env .target id).reports s =
      readReports env inner s ++ writeReports env inner name (s.symbols.get symbol) := by
  induction hpath with
  | @name id hkind =>
    have hkind : env.exprKind id = .name name := hkind
    rw [reports_name_target hends hkind, hsymbol]
    simp [readReports, writeReports, hkind, ExprKind.isName, hproper.assignmentFinding?_eq]
  | member h hkind =>
    refine reports_access_target hends (.member h hkind) ?_ ?_ hsymbol
    · rw [Env.exprKind, hkind]; rfl
    · simp only [targetType, Env.exprKind, hkind]
  | index h hkind =>
    refine reports_access_target hends (.index h hkind) ?_ ?_ hsymbol
    · rw [Env.exprKind, hkind]; rfl
    · simp only [targetType, Env.exprKind, hkind]
  | @group id grouped inner _ hkind ih =>
    have hgrouped : env.program.ExprEnds grouped :=
      hends.child (by simp [exprChildren, hkind, ExprKind.children])
    rw [← ih hgrouped, expr_eq_ofRule _ hends, expression, roleType, targetType, Env.exprKind, hkind,
      ofRule_bind, reports, run_bind, ofRule_visit_eq_expr, reports]
    rfl

/-- After the target and the value of an assignment, only their types are compared, and what is made of
the assignment comes last. -/
lemma reports_assign {target value : ExprId} {op : Option BinaryOp} {role : Role} {last : Ty → Rule Ty}
    {own : List (Option Span × Code)} (hends : env.program.ExprEnds id)
    (heq : expression env role id = assignmentType env op target value (env.exprSpan id) >>= last)
    (hlast : ∀ ty, ReportsAt env own (last ty)) (s : State) :
    let declared := (expr env .target target).run s
    ∃ rest, (expr env role id).reports s = (expr env .target target).reports s ++
        ((expr env (.value (some declared.1)) value).reports declared.2 ++ rest) ∧
      ∀ d ∈ rest, d.code ∈ [.constAssignment, .parameterAssignment, .invalidAssignmentTarget] →
        (d.span, d.code) ∈ own := by
  intro declared
  have hassigned (a b : Ty) : ReportsAt env [(some (env.exprSpan id), .arithmeticOperand)]
      (assignedType op a b (env.exprSpan id)) := by
    cases op with
    | none => exact (ReportsAt.pure b).mono (nil_sublist _)
    | some op => exact arithmeticType_reportsAt op a b _
  have hcleared : ReportsAt env [] (endNarrowing env target) := by
    unfold endNarrowing
    split
    · exact .act trivial fun _ => rfl
    · exact .pure ()
  have hrest (a b : Ty) : ReportsAt env ((some (env.exprSpan id), .arithmeticOperand) ::
      (some (env.exprSpan value), .typeMismatch) :: own) (do
        let assigned ← assignedType op a b (env.exprSpan id)
        reportIf (!assigned.assignable a) (.mismatch .assignment a assigned) (env.exprSpan value)
        endNarrowing env target
        last a) :=
    (hassigned a b).bind fun _ => (ReportsAt.reportIf _ _ _).bind fun _ => hcleared.bind fun _ => hlast a
  have hvalue (a : Ty) := (expr_appends env (.value (some a)) value).bind fun b => (hrest a b).1
  rw [expr_eq_ofRule role hends, heq]
  simp only [assignmentType, bind_assoc, pure_bind, ofRule_bind env (visit _ _), ofRule_visit_eq_expr]
  rw [reports_bind (expr_appends env _ target) hvalue,
    reports_bind (expr_appends env _ value) fun b => (hrest _ b).1]
  refine ⟨_, rfl, fun d hd hcode => ?_⟩
  have hplace := ((hrest _ _).2 _).subset (mem_map_of_mem hd)
  simp only [mem_cons, Prod.mk.injEq] at hplace
  rcases hplace with ⟨-, h⟩ | ⟨-, h⟩ | h
  · simp [h] at hcode
  · simp [h] at hcode
  · exact h

end Check

/-- An assignment to a path, at any point of a check: what is reported of the value of the path, then
what forbids the write, if anything does, and then what is reported of the new value. Whatever comes
after that is about types, unless the assignment is itself assigned to. -/
theorem path_write_findings {env : Env} (imports : List Ident) (hacyclic : env.program.Acyclic)
    {s : State} (hs : s ∈ (Check.program env imports).states {}) {id target value : ExprId}
    {inner : ExprId} {op : Option BinaryOp} {name : String} {symbol : SymbolId}
    (hkind : env.exprKind id = .assign op target value) (hpath : env.program.Path name target inner)
    (hsymbol : s.scopes.lookupValue name = some symbol) (role : Role) :
    let declared := (Check.expr env .target target).run s
    ∃ rest, (Check.expr env role id).reports s = readReports env inner s ++
        writeReports env inner name (s.symbols.get symbol) ++
        ((Check.expr env (.value (some declared.1)) value).reports declared.2 ++ rest) ∧
      ∀ d ∈ rest, d.code ∈ [.constAssignment, .parameterAssignment, .invalidAssignmentTarget] →
        role = .target ∧ d.span = some (env.exprSpan id) := by
  intro declared
  have hends := (hacyclic.expr id).ends
  have hrecord (ty : Ty) : ReportsAt env [] (do record id ty; return ty) :=
    (ReportsAt.record id ty).andPure _
  rw [← reports_path_target hpath (hacyclic.expr target).ends hsymbol
    (program_proper env imports s hs symbol)]
  cases role with
  | value hint =>
    have heq : expression env (.value hint) id = assignmentType env op target value (env.exprSpan id) >>=
        fun ty => do record id ty; return ty := by
      simp only [expression, roleType, valueType, hkind]
    obtain ⟨rest, hreports, hrest⟩ := reports_assign hends heq hrecord s
    exact ⟨rest, hreports, fun d hd hcode => absurd (hrest d hd hcode) not_mem_nil⟩
  | target =>
    have heq : expression env .target id = assignmentType env op target value (env.exprSpan id) >>=
        fun ty => do report .invalidAssignmentTarget (env.exprSpan id); record id ty; return ty := by
      simp only [expression, roleType, targetType, valueType, hkind, bind_assoc, pure_bind]
    obtain ⟨rest, hreports, hrest⟩ := reports_assign hends heq
      (fun ty => (ReportsAt.report _ _).bind fun _ => hrecord ty) s
    refine ⟨rest, hreports, fun d hd hcode => ⟨rfl, ?_⟩⟩
    exact congrArg Prod.fst (mem_singleton.mp (hrest d hd hcode))

/-- A constant array, and a write to its first element in parentheses. -/
def elementWrite : Env where
  program := {
    expressions := #[⟨{}, .literal (.int "0")⟩, ⟨{}, .array [⟨0⟩]⟩, ⟨{}, .name "a"⟩, ⟨{}, .index ⟨2⟩ ⟨0⟩⟩,
      ⟨{}, .group ⟨3⟩⟩, ⟨{}, .assign none ⟨4⟩ ⟨0⟩⟩]
    statements := #[⟨{}, .bind { name := ⟨"a", {}⟩, value := some ⟨1⟩, isConst := true }⟩, ⟨{}, .expr ⟨5⟩⟩]
    items := [⟨0⟩, ⟨1⟩] }
  options := {}

def elementState : State :=
  (((Check.program elementWrite []).states {}).find? (·.scopes.lookupValue "a" == some ⟨0⟩)).getD {}

theorem path_write_findings_element :
    elementWrite.program.Acyclic ∧ elementState ∈ (Check.program elementWrite []).states {} ∧
      elementWrite.program.Path "a" ⟨4⟩ ⟨3⟩ ∧ elementState.scopes.lookupValue "a" = some ⟨0⟩ ∧
      ∃ rest, (Check.expr elementWrite (.value none) ⟨5⟩).reports elementState =
          (Finding.constAssignment "a").toDiagnostic {} :: rest ∧
        ∀ d ∈ rest, d.code ∉ [.constAssignment, .parameterAssignment, .invalidAssignmentTarget] := by
  have hacyclic : elementWrite.program.Acyclic := Program.acyclic_of_indices (by decide) (by decide)
  have hs : elementState ∈ (Check.program elementWrite []).states {} := by
    exact getD_find?_mem (by decide +kernel) _
  have hkind : elementWrite.exprKind ⟨5⟩ = .assign none ⟨4⟩ ⟨0⟩ := rfl
  have hpath : elementWrite.program.Path "a" ⟨4⟩ ⟨3⟩ := .group (.index (.name rfl) rfl) rfl
  have hsymbol : elementState.scopes.lookupValue "a" = some ⟨0⟩ := by decide +kernel
  obtain ⟨rest, hreports, hrest⟩ := path_write_findings [] hacyclic hs hkind hpath hsymbol (.value none)
  have hwritten : writeReports elementWrite ⟨3⟩ "a"
      (elementState.symbols.get ⟨0⟩) = [(Finding.constAssignment "a").toDiagnostic {}] := by
    decide +kernel
  have hread : readReports elementWrite ⟨3⟩ elementState = [] := by
    decide +kernel
  have hvalue : (Check.expr elementWrite (.value (some
      ((Check.expr elementWrite .target ⟨4⟩).run elementState).1)) ⟨0⟩).reports
        ((Check.expr elementWrite .target ⟨4⟩).run elementState).2 = [] := by decide +kernel
  rw [hread, hwritten, hvalue] at hreports
  refine ⟨hacyclic, hs, hpath, hsymbol, rest, hreports, fun d hd hcode => ?_⟩
  cases (hrest d hd hcode).1

end StaticTyping
