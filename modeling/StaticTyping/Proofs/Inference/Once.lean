import StaticTyping.Proofs.Aliases.Scoped
import StaticTyping.Proofs.Inference.Rules
import StaticTyping.Proofs.Visited.Reached

/-! Types are assigned once. Where no statement is checked twice, the type of a function is missing when
it is set. Aliases learn their types only if they have none, and nothing else changes a type. -/

namespace StaticTyping

open Inference Multiset Rule StaticTyping.Action SymbolTable

def State.KeepsTypes (s t : State) : Prop :=
  ∀ id ty, (s.symbols.get id).ty = some ty → (t.symbols.get id).ty = some ty

def Action.Fills {β : Type} (s : State) : Action β → Prop
  | .setType id _ => (s.symbols.get id).ty = none
  | _ => True

lemma Action.Fills.keepsTypes {β : Type} {action : Action β} {s : State} (h : action.Fills s) :
    s.KeepsTypes (action.step s).2 := by
  intro other found hfound
  cases action with
  | setType id ty =>
    have hne : other ≠ id := by
      rintro rfl
      exact absurd (hfound.symm.trans h) (Option.some_ne_none found)
    exact (congrArg Symbol.ty (s.symbols.get_modify_of_ne _ hne)).trans hfound
  | fillType id ty =>
    rcases s.symbols.get_modify_cases id other fun symbol =>
      { symbol with ty := some (symbol.ty.getD ty) } with hget | hget
    · exact (congrArg Symbol.ty hget).trans hfound
    · refine (congrArg Symbol.ty hget).trans ?_
      simp [hfound]
  | setMembers id members | setVariants id variants | retypeMethod id method ty =>
    refine (get_modify_field Symbol.ty _ ?_ id other).trans hfound
    exact fun _ => rfl
  | allocate symbol =>
    have hne : other.index ≠ s.symbols.size := by
      intro hindex
      rw [get_of_not_lt hindex.not_lt] at hfound
      cases hfound
    exact (congrArg Symbol.ty (s.symbols.get_alloc_of_ne symbol hne)).trans hfound
  | declareValue | declareType | lookupValueType =>
    simp only [step]
    split <;> exact hfound
  | _ => exact hfound

/-- What is asked for was not found before: the type that is set is missing, and nothing that may be
found in the statement that is checked was found. -/
def Request.Fresh {p : Program} {β : Type} (T : StmtId → Multiset StmtId) (w : Inference p) :
    Request β → Prop
  | .act action => action.Fills w.state
  | .stmt id => (T id + w.found).Nodup
  | .expr _ _ | .expand _ _ _ _ => True

namespace Rule

variable {α β : Type} {p : Program} {T : StmtId → Multiset StmtId} {K : Multiset StmtId}
  {w : Inference p} {x : Rule α} {Q : α → Inference p → Prop}

def filling (p : Program) (T : StmtId → Multiset StmtId) : Contract Request (Inference p) where
  requires request w := (inferring p T).requires request w ∧ request.Fresh T w
  ensures := (inferring p T).ensures

/-- Among what may come back is an answer after which as much is found as there may be. If nothing is
found twice then, what was asked for was new. -/
lemma exists_answer {request : Request β} (h : (inferring p T).requires request w) :
    ∃ answer v, (inferring p T).ensures request w answer v ∧ w.found ≤ v.found ∧
      (v.found.Nodup → request.Fresh T w) := by
  cases request with
  | act action =>
    obtain ⟨v, hstate, hcounts⟩ := exists_next h
    refine ⟨_, v, ⟨Prod.ext rfl hstate.symm, hcounts⟩, hcounts.le, fun hnodup => ?_⟩
    cases action with
    | setType sym ty =>
      obtain ⟨f, hf, hfound⟩ := hcounts
      rw [hfound, singleton_add, nodup_cons] at hnodup
      exact w.missing hnodup.1 hf
    | _ => trivial
  | expr | expand => exact ⟨default, w, ⟨.of_same rfl rfl, rfl⟩, le_rfl, fun _ => trivial⟩
  | stmt id =>
    exact ⟨(), w.suppose (T id), ⟨le_rfl, fun _ _ hf => hf⟩, le_add_left _ _, fun h => h⟩

lemma found_le_of_meets (hQ : ∀ a v, Q a v → v.found ≤ K) (hx : x.Meets (inferring p T) w Q) :
    w.found ≤ K := by
  induction x generalizing w with
  | done a => exact hQ a w hx
  | ask request next ih =>
    obtain ⟨answer, v, hv, hle, -⟩ := exists_answer hx.1
    exact hle.trans (ih answer (hx.2 answer v hv))

/-- Where there is nothing twice among all that may be found to the end, nothing is found twice. -/
lemma meets_filling (hK : K.Nodup) (hQ : ∀ a v, Q a v → v.found ≤ K)
    (hx : x.Meets (inferring p T) w Q) : x.Meets (filling p T) w Q := by
  induction x generalizing w with
  | done a => exact hx
  | ask request next ih =>
    obtain ⟨answer, v, hv, -, hfresh⟩ := exists_answer hx.1
    have hle : v.found ≤ K := found_le_of_meets hQ (hx.2 answer v hv)
    refine ⟨⟨hx.1, hfresh (nodup_of_le hle hK)⟩, fun answer v hv => ?_⟩
    exact ih answer (hx.2 answer v hv)

lemma Finds.filling (hx : Finds p T K x) (hK : (K + w.found).Nodup) :
    x.Meets (filling p T) w fun _ v => (finding p).does K w v :=
  meets_filling hK (fun _ _ hv => hv.1) (hx w)

end Rule

lemma Action.Local.fills {β : Type} {action : Action β} (h : action.Local) (s : State) :
    action.Fills s := by
  cases action with
  | setType => exact h.elim
  | _ => trivial

namespace Check

variable {env : Env} {T : StmtId → Multiset StmtId}

lemma meets_of_settling {α : Type} {x : Check α} {w : Inference env.program}
    (hlocal : x.Along (fun action _ => action.Local) w.state) (hx : x.Settling) :
    x.Meets (performing fun action s => action.Fills s) w.state fun _ t =>
      ∃ v : Inference env.program, v.state = t ∧ w.Stays v := by
  have hwith := (hx w.state).withholds
  exact meets_performing_iff.mpr
    ⟨hlocal.mono fun _ s h => h.fills s, w.withhold hwith, rfl, hwith, rfl⟩

lemma filling_fulfil (env : Env) {stmt : StmtId → Check Unit}
    (h : ∀ (id : StmtId) (w : Inference env.program), (T id + w.found).Nodup →
      (stmt id).Meets (performing fun action s => action.Fills s) w.state fun _ t =>
        ∃ v : Inference env.program, v.state = t ∧ (finding env.program).does (T id) w v) :
    Visits.Fulfil { expr := expr env, stmt, expand } (filling env.program T)
      (fun action s => action.Fills s) (fun w s => w.state = s) where
  act {_ action w s} hs hrequest := by
    subst hs
    obtain ⟨v, hstate, hcounts⟩ := exists_next hrequest.1
    exact ⟨hrequest.2, v, hstate, Prod.ext rfl hstate.symm, hcounts⟩
  expr {role id w s} hs hrequest := by
    subst hs
    exact meets_of_settling (meets_performing_iff.mp (expr_meets hrequest.1 role w.state)).1
      (expr_settling env role id)
  stmt {id w s} hs hrequest := by
    subst hs
    exact h id w hrequest.2
  expand {active id span cyclic w s} hs hrequest := by
    subst hs
    obtain rfl : active = [] := hrequest.1
    obtain ⟨hresolving, -⟩ := meets_performing_iff.mp (expand_resolves id span cyclic w.state)
    exact meets_of_settling (hresolving.mono fun _ _ h => h.local) (expand_settling [] id span cyclic)

lemma stmtWithin_fills (hacyclic : env.program.Acyclic)
    (hT : ∀ id, T id = {id} + ((env.program.stmtParts id).map T).sum) (depth : Nat) (id : StmtId)
    (w : Inference env.program) (hnodup : (T id + w.found).Nodup) :
    (stmtWithin env depth id).Meets (performing fun action s => action.Fills s) w.state
      fun _ t => ∃ v : Inference env.program,
        v.state = t ∧ (finding env.program).does (T id) w v := by
  induction depth generalizing id w with
  | zero =>
    have hnothing := (finding env.program).zero w
    refine ⟨trivial, fun _ t ht => ⟨w, ?_, finding_le hnothing (zero_le (T id))⟩⟩
    exact congrArg Prod.snd ht
  | succ depth ih =>
    have hrule := statement_finds hT (hacyclic.stmt id).ends.here
      fun m _ => (hacyclic.stmt m).ends.here
    exact toCheck_meets (filling_fulfil env ih) (hrule.filling hnodup) rfl

lemma program_fills (env : Env) (hacyclic : env.program.Acyclic)
    (hstmts : env.program.stmtReferences.Nodup) (imports : List Ident) :
    (program env imports).Along (fun action s => action.Fills s) {} := by
  let T := gatherWithin (fun a => {a}) env.program.stmtParts env.program.stmtDepth
  have hT (id : StmtId) : T id = {id} + ((env.program.stmtParts id).map T).sum :=
    gatherWithin_eq (Program.StmtEnds.parts (hacyclic.stmt id).ends)
  have hvisits := filling_fulfil env (stmtWithin_fills hacyclic hT env.program.stmtDepth)
  have hnodup : (env.program.visited + (start env.program).found).Nodup := by
    have hfound : (start env.program).found = 0 := rfl
    rw [hfound, add_zero]
    exact hacyclic.nodup_visited hstmts
  have hfinds : Finds env.program T env.program.visited (Rule.program env imports) := by
    rw [Program.visited, ← sum_map_eq_bind]
    exact program_finds imports
  have hrule := hfinds.filling hnodup
  exact (meets_performing_iff.mp (toCheck_meets hvisits hrule rfl)).1

end Check

/-- Where nothing is referred to in a cycle and no statement twice, types are assigned once: the type of
a symbol is set only where it is missing, and a type that a symbol has in some state of the check it
has in all later states. -/
theorem symbol_types_assigned_once (p : Program) (options : Options) (imports : List Ident)
    (hacyclic : p.Acyclic) (hstmts : p.stmtReferences.Nodup) :
    (Check.program ⟨p, options⟩ imports).Along (fun action s => action.Fills s) {} ∧
      ((Check.program ⟨p, options⟩ imports).states {}).Pairwise fun s t =>
        ∀ id ty, (s.symbols.get id).ty = some ty → (t.symbols.get id).ty = some ty := by
  have hfills := Check.program_fills ⟨p, options⟩ hacyclic hstmts imports
  have hkeeps := hfills.mono fun _ _ h => h.keepsTypes
  have hpairwise := (Check.Along.pairwise (R := State.KeepsTypes) (fun _ _ _ h => h)
    (fun hab hbc id ty h => hbc id ty (hab id ty h)) hkeeps).2
  exact ⟨hfills, hpairwise⟩

/-- An alias, a function inside a function, and a method. No result is written, so that all types are
found in the course of the check. -/
def lateTypes : Program where
  expressions := #[⟨{}, .literal (.int "1")⟩]
  statements := #[
    ⟨{}, .typeAlias { name := ⟨"Count", {}⟩, target := .named {} "i32" [] }⟩,
    ⟨{}, .ret (some ⟨0⟩)⟩,
    ⟨{}, .function { name := ⟨"inner", {}⟩, body := { statements := [⟨1⟩] } }⟩,
    ⟨{}, .function { name := ⟨"outer", {}⟩, body := { statements := [⟨2⟩] } }⟩,
    ⟨{}, .function { name := ⟨"method", {}⟩, body := {} }⟩,
    ⟨{}, .record .structType { name := ⟨"S", {}⟩, methods := [⟨4⟩] }⟩]
  items := [⟨3⟩, ⟨0⟩, ⟨5⟩]

/-- Symbols are those of the alias, the record, the method, the outer and the inner function, and the
receiver. -/
theorem symbol_types_assigned_once_late : lateTypes.Acyclic ∧ lateTypes.stmtReferences.Nodup ∧
      (((Check.program ⟨lateTypes, {}⟩ []).states {}).Pairwise fun s t =>
        ∀ id ty, (s.symbols.get id).ty = some ty → (t.symbols.get id).ty = some ty) ∧
      (((Check.program ⟨lateTypes, {}⟩ []).run {}).2.symbols.symbols.toList.map
        fun symbol => symbol.ty.map Ty.text) =
        [some "i32", none, some "fn() -> void", some "fn() -> void", some "fn() -> i32", some "S"] := by
  have hacyclic : lateTypes.Acyclic := Program.acyclic_of_indices (by decide) (by decide)
  have hstmts : lateTypes.stmtReferences.Nodup := by decide
  exact ⟨hacyclic, hstmts, (symbol_types_assigned_once lateTypes {} [] hacyclic hstmts).2,
    by decide +kernel⟩

end StaticTyping
