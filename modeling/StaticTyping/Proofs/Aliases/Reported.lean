import StaticTyping.Proofs.Aliases.Acyclic
import StaticTyping.Proofs.Aliases.Cycle
import StaticTyping.Proofs.Aliases.Detection
import StaticTyping.Proofs.Mirror.Same

/-! Reports of alias cycles from whole programs. Where all aliases are declared at top level, every
alias has its type before the first statement is checked, and statements report no cycle. -/

namespace StaticTyping

open Relation Check Mirror Rule List Diagnostics

lemma Rule.registerDeclarations_declares {p : Program} {B : StmtId → Prop} (items : List StmtId)
    (w : Outline) : (registerDeclarations p items).Meets (checking p B) w fun _ v =>
      ∀ id ∈ items, p.isType id ∨ p.isFunction id → id ∈ v.declared := by
  refine (registerTypeNames_answers items w).bind ?_
  rintro types u ⟨-, hu⟩
  refine (populateTypes_registers types u).bind fun _ v hv => ?_
  have hfunctions : Registers p B (items.map fun id => if p.isFunction id then {id} else 0).sum
      (items.forM (registerIfFunction p)) :=
    .forM fun id _ => registerIfFunction_registers id
  refine (hfunctions v).mono fun _ z hz id hid hkind => ?_
  rcases hkind with htype | hfunction
  · refine hz.declared (hv.declared (hu.registered id ?_))
    exact Multiset.mem_coe.mpr (mem_filter.mpr ⟨hid, htype⟩)
  · exact hz.registered id (mem_sum_map.mpr ⟨id, hid, by simp [hfunction]⟩)

namespace Check

lemma registered_declares (env : Env) (imports : List Ident) {id : StmtId}
    (hid : id ∈ env.program.items) (hkind : env.program.isType id ∨ env.program.isFunction id) :
    ((registered env imports).declarations.lookup id).isSome := by
  have hvisits := visits_fulfil env fun c hc s => stmt_meets hc s
  have hrule : (do
      imports.forM declareImport
      registerDeclarations env.program env.program.items : Rule Unit).Meets
        (checking env.program env.program.StmtEnds) (State.outline {}) fun _ v =>
          ∀ id ∈ env.program.items, env.program.isType id ∨ env.program.isFunction id →
            id ∈ v.declared := by
    have himports : Registers env.program env.program.StmtEnds 0
        (imports.forM declareImport) :=
      .forM_zero fun binding _ => registers_pieces.introduce _ (.plain rfl (by simp)) rfl
    exact (himports _).bind fun _ v _ => registerDeclarations_declares env.program.items v
  obtain ⟨-, _, rfl, hdeclared⟩ :=
    meets_performing_iff.mp (toCheck_meets hvisits hrule (s := {}) rfl)
  exact hdeclared id hid hkind

end Check

lemma Diagnostics.count_of_append {ds es : Diagnostics} {more : List Diagnostic} {code : Code}
    (h : es.entries.toList = ds.entries.toList ++ more) (hmore : ∀ d ∈ more, d.code ≠ code) :
    es.count code = ds.count code := by
  have hnone : more.countP (·.code == code) = 0 := by
    simpa [countP_eq_zero] using hmore
  rw [count, count, ← Array.countP_toList, ← Array.countP_toList, h,
    countP_append, hnone, Nat.add_zero]

def Outputs.any : Outputs True where
  holds _ _ := True
  nil := trivial
  append _ _ := trivial
  report _ _ := trivial
  cycle _ _ _ := trivial

def Outputs.withoutCycle : Outputs False where
  holds ds _ := ∀ d ∈ ds, d.code ≠ .aliasCycle
  nil _ h := absurd h List.not_mem_nil
  append hds hds' d hd := (List.mem_append.mp hd).elim (hds d) (hds' d)
  report _ hordinary d hd := by
    obtain rfl := List.mem_singleton.mp hd
    exact (Finding.isOrdinary_iff.mp hordinary).1
  cycle _ _ h := h.elim

def StmtTwins.plain (env : Env) : StmtTwins (.identity (fun _ => False) .any) env env :=
  .same identity_reflects env.program.items (.refl env.options) (fun _ _ => trivial)
    (fun _ => True) (fun _ _ => trivial) (fun _ => trivial) fun _ _ => .inl trivial

lemma Check.registered_states (env : Env) (imports : List Ident) :
    (identity (fun _ => False) .any).States (identity (fun _ => False) .any).Steady [Eq]
      (registered env imports) (registered env imports) :=
  Mirror.registered_states (.plain env) Mirror.steady_heeds Mirror.identity_context rfl
    (fun _ _ => ⟨fun _ => rfl, trivial⟩)
    (fun id _ a b ha hb => ⟨trivial, by cases ha.symm.trans hb; rfl, fun _ _ => .inr trivial⟩)
    (fun _ _ => trivial) (fun _ => rfl) fun _ h => h

/-- Every alias that the items lead to is one of them. -/
def Program.AliasesAtTop (p : Program) : Prop :=
  ∀ item ∈ p.items, ∀ id, ReflTransGen p.StmtEdge item id → ∀ decl,
    (p.stmt id).kind = .typeAlias decl → id ∈ p.items

section Statements

variable (env : Env) (imports : List Ident)

lemma conditionReports_code {policy : ConditionPolicy} {ty : Ty} {span : Span} :
    ∀ d ∈ conditionReports policy ty span, d.code ≠ .aliasCycle := by
  intro d hd
  unfold conditionReports at hd
  split at hd
  · exact absurd hd not_mem_nil
  · obtain rfl := mem_singleton.mp hd
    simp [Finding.toDiagnostic, Finding.code]

lemma check_count_aliasCycle (htop : env.program.AliasesAtTop)
    (hclosed : ∀ id, ((registered env imports).symbols.get id).aliasTarget.isSome →
      ((registered env imports).symbols.get id).ty ≠ none) :
    (check env.program env.options imports).diagnostics.count .aliasCycle =
      (registered env imports).diagnostics.count .aliasCycle := by
  let known (id : StmtId) : Prop := ((registered env imports).declarations.lookup id).isSome
  let S (id : StmtId) : Prop := ∃ item ∈ env.program.items, ReflTransGen env.program.StmtEdge item id
  let T : StmtTwins (.identity known .withoutCycle) env env := by
    refine .same identity_reflects env.program.items (.refl env.options)
      (fun _ _ => conditionReports_code) S ?_ (fun _ => trivial) ?_
    · rintro id part ⟨item, hitem, hpath⟩ hpart
      exact ⟨item, hitem, hpath.tail hpart⟩
    · rintro id decl ⟨item, hitem, hpath⟩ hkind
      refine .inr (registered_declares env imports (htop item hitem id hpath decl hkind) (.inl ?_))
      simp [Program.isType, hkind, StmtKind.typeSymbol?]
  have hstates : (identity known .withoutCycle).States (fun _ _ => False) [Eq]
      (registered env imports) (registered env imports) :=
    (registered_states env imports).retarget_identity hclosed fun _ h => h
  have hrun := (visited T fun _ _ _ h => h.elim).statements Mirror.identity_context
    (fun id hid => ⟨fun _ => rfl, id, hid, .refl⟩) _ _ hstates
  obtain ⟨-, -, ⟨ds, _, hds, -, hcodes⟩, -⟩ := hrun
  have hprogram : (check env.program env.options imports).diagnostics =
      ((toCheck (visits env) (env.program.items.forM visitStmt)).run
        (registered env imports)).2.diagnostics := by
    unfold check
    rw [program_eq_registration, run_bind]
    rfl
  rw [hprogram]
  exact count_of_append hds hcodes

lemma Check.registered_traced (hnodup : env.program.typeNames.Nodup) :
    (∀ id, ((registered env imports).symbols.get id).aliasTarget.isSome →
      ((registered env imports).symbols.get id).ty ≠ none) ∧
    (0 < (registered env imports).diagnostics.count .aliasCycle →
      ∃ name, TransGen env.program.AliasRefers name name) := by
  refine registered_of_parts (Q := fun t =>
    (∀ id, (t.symbols.get id).aliasTarget.isSome → (t.symbols.get id).ty ≠ none) ∧
    (0 < t.diagnostics.count .aliasCycle → ∃ name, TransGen env.program.AliasRefers name name))
    hnodup fun pairs b hb => ?_
  refine (registerParts_waiting hb mattering_none (traced_kept hb) (fun _ _ _ _ _ h => h)
    (.start hb)).mono ?_
  rintro _ t ⟨hwaiting, ht⟩
  refine ⟨fun id halias => hwaiting.waiting ?_, ht.reported⟩
  by_cases hid : id.index < b.symbols.size
  · rwa [← hwaiting.since.grows.target hid]
  · simp [(hwaiting.since.grows.plain hid).2] at halias

lemma Check.registered_cleared (hnodup : env.program.typeNames.Nodup)
    (huncaptured : env.program.Uncaptured) {name : String}
    (hcycle : TransGen env.program.AliasRefers name name) :
    0 < (registered env imports).diagnostics.count .aliasCycle := by
  refine registered_of_parts (Q := fun t => 0 < t.diagnostics.count .aliasCycle) hnodup
    fun pairs b hb => ?_
  refine (registerParts_cleared hb huncaptured).mono fun _ t ht => Nat.pos_of_ne_zero fun hcalm => ?_
  obtain ⟨_, ⟨target, _, halias, -⟩, -⟩ := TransGen.head'_iff.mp hcycle
  obtain ⟨x, -, rfl, htarget⟩ := hb.exists_alias halias
  exact ht hcalm x (hb.transGen_self (by simp [htarget]) hcycle)

end Statements

/-- A cycle of aliases is reported only if there is one. If there is one it is reported, unless a type
parameter inside a type declaration has a name that the target of a later alias mentions. -/
theorem check_reports_alias_cycle (p : Program) (options : Options) (imports : List Ident)
    (hnodup : p.typeNames.Nodup) (htop : p.AliasesAtTop) :
    (0 < (check p options imports).diagnostics.count .aliasCycle →
      ∃ name, TransGen p.AliasRefers name name) ∧
    (p.Uncaptured → (∃ name, TransGen p.AliasRefers name name) →
      0 < (check p options imports).diagnostics.count .aliasCycle) := by
  obtain ⟨hclosed, hreported⟩ := Check.registered_traced ⟨p, options⟩ imports hnodup
  have hcount := check_count_aliasCycle ⟨p, options⟩ imports htop hclosed
  rw [hcount]
  exact ⟨hreported, fun huncaptured ⟨_, hcycle⟩ =>
    Check.registered_cleared ⟨p, options⟩ imports hnodup huncaptured hcycle⟩

/-- A record with a method that takes a value of an alias, and two aliases that refer to each other. A
type parameter of the method has the name of the second alias. -/
def capturedCycleSample : Program where
  statements := #[
    ⟨{}, .function { name := ⟨"m", {}⟩, typeParams := [⟨"B", {}⟩],
                     params := [{ name := "x", type := some (.named {} "A" []) }] }⟩,
    ⟨{}, .record .structType { name := ⟨"S", {}⟩, methods := [⟨0⟩] }⟩,
    ⟨{}, .typeAlias { name := ⟨"A", {}⟩, target := .named {} "B" [] }⟩,
    ⟨{}, .typeAlias { name := ⟨"B", {}⟩, target := .named {} "A" [] }⟩]
  items := [⟨1⟩, ⟨2⟩, ⟨3⟩]

namespace capturedCycleSample

lemma aliasesAtTop (items : List StmtId) (hA : ⟨2⟩ ∈ items) (hB : ⟨3⟩ ∈ items) :
    (capturedCycleSample.inOrder items).AliasesAtTop := by
  rintro - - ⟨i⟩ - decl hkind
  match i with
  | 0 | 1 => simp [capturedCycleSample, Program.inOrder, Program.stmt] at hkind
  | 2 => exact hA
  | 3 => exact hB
  | i + 4 => simp [capturedCycleSample, Program.inOrder, Program.stmt, Stmt.dangling] at hkind

lemma cycle : TransGen capturedCycleSample.AliasRefers "A" "A" := by
  have hA : capturedCycleSample.Aliases "A" (.named {} "B" []) := ⟨_, ⟨⟨2⟩, by decide, rfl⟩, rfl, rfl⟩
  have hB : capturedCycleSample.Aliases "B" (.named {} "A" []) := ⟨_, ⟨⟨3⟩, by decide, rfl⟩, rfl, rfl⟩
  exact .head ⟨_, _, hA, hB, by decide, by decide⟩ (.single ⟨_, _, hB, hA, by decide, by decide⟩)

end capturedCycleSample

theorem check_reports_alias_cycle_sample :
    (capturedCycleSample.inOrder [⟨2⟩, ⟨3⟩, ⟨1⟩]).Uncaptured ∧
    0 < (check (capturedCycleSample.inOrder [⟨2⟩, ⟨3⟩, ⟨1⟩]) {} []).diagnostics.count .aliasCycle := by
  have hcycle : ∃ name,
      TransGen (capturedCycleSample.inOrder [⟨2⟩, ⟨3⟩, ⟨1⟩]).AliasRefers name name := by
    rw [Program.aliasRefers_inOrder (by decide)]
    exact ⟨"A", capturedCycleSample.cycle⟩
  have hreports := check_reports_alias_cycle (capturedCycleSample.inOrder [⟨2⟩, ⟨3⟩, ⟨1⟩]) {} []
    (by decide) (capturedCycleSample.aliasesAtTop _ (by decide) (by decide))
  exact ⟨by decide, hreports.2 (by decide) hcycle⟩

/-- With the record first, the aliases are met inside its method, where the second name is that of the
type parameter, and the cycle is not reported. -/
theorem check_reports_alias_cycle_captured :
    (∀ id ∈ capturedCycleSample.items, (capturedCycleSample.stmt id).kind.typeParams = []) ∧
    capturedCycleSample.typeNames.Nodup ∧ capturedCycleSample.typeNames.all (!isBuiltIn ·) ∧
    capturedCycleSample.AliasesAtTop ∧ TransGen capturedCycleSample.AliasRefers "A" "A" ∧
    (check capturedCycleSample {} []).diagnostics.count .aliasCycle = 0 :=
  ⟨by decide, by decide, by decide,
    capturedCycleSample.aliasesAtTop capturedCycleSample.items (by decide) (by decide),
    capturedCycleSample.cycle, by decide⟩

end StaticTyping
