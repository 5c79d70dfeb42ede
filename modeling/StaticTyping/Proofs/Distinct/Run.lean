import StaticTyping.Proofs.Aliases.Reported
import StaticTyping.Proofs.Distinct.Stmt
import Mathlib.Algebra.Order.BigOperators.Group.Multiset

/-! How often a check reports a diagnostic. What a program costs is what stands in the statements and
expressions that are checked, and each of them is checked once. A type parameter that repeats a name
counts twice, and so may the elements of a value that is spread. -/

namespace StaticTyping

open Diagnostic Program List Rule Audit.Reach

variable {id : StmtId}

namespace Program

/-- The spans of all nodes that something in the program refers to. -/
def spans (p : Program) : List Span := p.stmtReferences.flatMap (fun id => (p.stmt id).spans) ++
    p.exprReferences.flatMap fun id => (p.expr id).spans

variable {p : Program}

lemma Acyclic.mem_stmtReferences (h : p.Acyclic) (hid : id ∈ p.visited) :
    id ∈ p.stmtReferences := by
  rw [h.visited_eq, Multiset.mem_add, Multiset.mem_bind] at hid
  rcases hid with hitem | ⟨parent, -, hpart⟩
  · exact mem_append.mpr (.inl (Multiset.mem_coe.mp hitem))
  · have hchild := (p.stmtParts_sublist parent).subset (Multiset.mem_coe.mp hpart)
    exact mem_append.mpr
      (.inr (mem_flatMap_kids (fun node : Stmt => node.kind.children) rfl hchild))

lemma Acyclic.mem_exprReferences (h : p.Acyclic) {id : ExprId}
    (hid : id ∈ (p.items.map p.stmtTree).sum) : id ∈ p.exprReferences := by
  rw [h.recorded_eq, Multiset.mem_add, Multiset.mem_bind, Multiset.mem_bind] at hid
  rcases hid with ⟨holder, -, hheld⟩ | ⟨parent, -, hchild⟩
  · exact mem_append.mpr (.inr (mem_flatMap_kids (fun node : Stmt => node.kind.exprs) rfl
      (Multiset.mem_coe.mp hheld)))
  · exact mem_append.mpr (.inl (mem_flatMap_kids (fun node : Expr => node.kind.children) rfl
      (Multiset.mem_coe.mp hchild)))

end Program

lemma sum_map_le_of_nodup {α : Type} (weight : α → ℕ) {s : Multiset α} {xs : List α}
    (hnodup : s.Nodup) (hsub : ∀ x ∈ s, x ∈ xs) : (s.map weight).sum ≤ (xs.map weight).sum := by
  have hle : s ≤ (xs : Multiset α) :=
    (Multiset.le_iff_subset hnodup).mpr fun x hx => Multiset.mem_coe.mpr (hsub x hx)
  obtain ⟨rest, hrest⟩ := Multiset.le_iff_exists_add.mp hle
  have hsum : (xs.map weight).sum = (s.map weight).sum + (rest.map weight).sum := by
    rw [← Multiset.sum_coe, ← Multiset.map_coe, hrest, Multiset.map_add, Multiset.sum_add]
  omega

namespace Audit

variable (A : Audit)

section Counting

lemma sum_stmtTotal :
    (A.env.program.items.map A.stmtTotal).sum = (A.env.program.visited.map A.nodeCost).sum := by
  rw [visited, ← sum_map_eq_bind, sum_map_trees]
  rfl

lemma sum_total : (A.env.program.visited.map fun id =>
      ((A.env.program.stmt id).kind.exprs.map A.total).sum).sum =
      ((A.env.program.items.map A.env.program.stmtTree).sum.map fun id =>
        A.d.marksIn (A.env.program.expr id).spans).sum := by
  rw [recorded_eq_bind, Multiset.map_bind, Multiset.sum_bind, Multiset.map_bind,
    Multiset.sum_bind]
  rfl

def repeats : ℕ :=
  (A.env.program.visited.map fun id =>
    A.d.marksIn (A.env.program.stmt id).kind.repeatedTypeParams).sum

variable {A}

lemma visited_le (hsingle : A.env.program.SingleUse) (hacyclic : A.env.program.Acyclic) :
    (A.env.program.visited.map fun id => A.d.marksIn (A.env.program.stmt id).spans).sum ≤
      A.d.marksIn (A.env.program.stmtReferences.flatMap fun id => (A.env.program.stmt id).spans) := by
  rw [marksIn_flatMap]
  exact sum_map_le_of_nodup _ (hacyclic.nodup_visited hsingle.stmts) fun _ h => hacyclic.mem_stmtReferences h

lemma sum_stmtTotal_le (hsingle : A.env.program.SingleUse) (hacyclic : A.env.program.Acyclic) :
    (A.env.program.items.map A.stmtTotal).sum ≤ A.d.marksIn A.env.program.spans + A.repeats := by
  have hstmts := A.visited_le hsingle hacyclic
  have hexprs : ((A.env.program.items.map A.env.program.stmtTree).sum.map fun id =>
      A.d.marksIn (A.env.program.expr id).spans).sum ≤
      A.d.marksIn (A.env.program.exprReferences.flatMap fun id => (A.env.program.expr id).spans) := by
    rw [marksIn_flatMap]
    exact sum_map_le_of_nodup _ (hsingle.nodup_recorded hacyclic) fun _ h =>
      hacyclic.mem_exprReferences h
  have hsum : (A.env.program.visited.map A.nodeCost).sum =
      (A.env.program.visited.map fun id => A.d.marksIn (A.env.program.stmt id).spans).sum +
        A.repeats + ((A.env.program.items.map A.env.program.stmtTree).sum.map fun id =>
          A.d.marksIn (A.env.program.expr id).spans).sum := by
    rw [← A.sum_total, repeats, ← Multiset.sum_map_add, ← Multiset.sum_map_add]
    rfl
  rw [A.sum_stmtTotal, hsum, spans, marksIn_append]
  omega

lemma repeats_le (hsingle : A.env.program.SingleUse) (hacyclic : A.env.program.Acyclic) :
    A.repeats ≤ A.d.marksIn A.env.program.spans := by
  have hstmts := visited_le hsingle hacyclic
  have hrepeats : A.repeats ≤
      (A.env.program.visited.map fun id => A.d.marksIn (A.env.program.stmt id).spans).sum := by
    refine Multiset.sum_map_le_sum_map _ _ fun id _ => A.d.marksIn_le_of_sublist ?_
    exact (StmtKind.repeatedTypeParams_sublist _).cons _
  rw [spans, marksIn_append]
  omega

lemma repeats_eq_zero (h : A.d.span ∉ A.env.program.repeatedTypeParams.map some) :
    A.repeats = 0 := by
  refine Multiset.sum_eq_zero fun n hn => ?_
  obtain ⟨id, -, rfl⟩ := Multiset.mem_map.mp hn
  rw [marksIn_eq_count, count_eq_zero]
  intro hmem
  obtain ⟨span, hspan, hd⟩ := mem_map.mp hmem
  refine h (mem_map.mpr ⟨span, ?_, hd⟩)
  exact mem_flatMap_kids (fun node : Stmt => node.kind.repeatedTypeParams) rfl hspan

end Counting

section Items

variable {A} {R : A.Reach}

lemma registerCost_eq_zero
    (h : ¬ (A.env.program.isType id ∨ A.env.program.isFunction id)) : A.registerCost id = 0 := by
  unfold registerCost nameCost partsCost functionCost
  cases hkind : (A.env.program.stmt id).kind with
  | record | enum | typeAlias => simp [isType, hkind, StmtKind.typeSymbol?] at h
  | function => simp [isFunction, hkind] at h
  | _ => rfl

lemma Reach.visitItems_meets {ids : List StmtId} (hids : ∀ id ∈ ids, R.stmts id) {w : A.World}
    (hdeclared : ∀ id ∈ ids, A.env.program.isType id ∨ A.env.program.isFunction id →
      ∃ made, (id, made) ∈ w.1.declarations) :
    (ids.forM visitStmt).Meets R.contract w fun _ v =>
      State.Spends A.d [] (ids.map fun id => A.stmtTotal id - A.registerCost id).sum w.1 v.1 := by
  induction ids generalizing w with
  | nil => exact .refl w.1
  | cons id rest ih =>
    obtain ⟨hid, hrest⟩ := forall_mem_cons.mp hids
    obtain ⟨hmade, hothers⟩ := forall_mem_cons.mp hdeclared
    have hcost : A.checkCost w.1 id = A.stmtTotal id - A.registerCost id := by
      by_cases hkind : A.env.program.isType id ∨ A.env.program.isFunction id
      · obtain ⟨made, hmade⟩ := hmade hkind
        have hsome : (w.1.declarations.lookup id).isSome :=
          lookup_isSome_iff.mpr ⟨_, hmade, beq_self_eq_true id⟩
        rw [checkCost, if_pos hsome]
      · simp [checkCost, registerCost_eq_zero hkind]
    rw [map_cons, sum_cons, ← hcost]
    refine .bind (Q := _) ⟨hid, fun _ v hv => hv⟩ fun _ v hv => ?_
    refine (ih hrest fun other hother hkind => ?_).mono fun _ u hu => .trans hv hu
    obtain ⟨made, hmade⟩ := hothers other hother hkind
    exact ⟨made, hv.declarations hmade⟩

end Items

def everywhere : A.Reach where
  exprs := A.env.program.ExprEnds
  stmts := A.env.program.StmtEnds
  expr_ends _ h := h
  expr_child _ _ h hb := h.child hb
  stmt_ends _ h := h
  stmt_expr _ e h he := h.here e he
  stmt_child _ _ h hb := h.child hb

end Audit

namespace Check

variable {A : Audit}

lemma visits_spend (R : A.Reach) {stmt : StmtId → Check Unit}
    (h : ∀ id, R.stmts id → ∀ w : A.World, (stmt id).Meets (Action.performing fun _ _ => True) w.1
      fun _ t => ∃ v : A.World, v.1 = t ∧ State.Spends A.d [] (A.checkCost w.1 id) w.1 v.1) :
    Visits.Fulfil { expr := expr A.env, stmt, expand } R.contract (fun _ _ => True)
      (fun w s => w.1 = s) where
  act := act_fulfil
  expr {role id w _} hw hid := hw ▸ exprWithin_spends role (R.expr_ends id hid) (R.expr_ends id hid) w
  stmt {id w _} hw hid := hw ▸ h id hid w
  expand {active id span cyclic w _} hw _ := hw ▸ expand_spends active id span cyclic w

lemma stmtWithin_spends {depth : Nat}
    (hdepth : A.env.program.StmtEndsWithin depth id) (hends : A.env.program.StmtEnds id)
    (w : A.World) :
    (stmtWithin A.env depth id).Meets (Action.performing fun _ _ => True) w.1 fun _ t =>
      ∃ v : A.World, v.1 = t ∧ State.Spends A.d [] (A.checkCost w.1 id) w.1 v.1 := by
  induction depth generalizing id w with
  | zero => exact hdepth.elim
  | succ depth ih =>
    -- The depth that is left is enough for the children.
    let R : A.Reach :=
      { A.everywhere with
        stmts := fun c => A.env.program.StmtEndsWithin depth c ∧ A.env.program.StmtEnds c
        stmt_ends := fun _ hc => hc.2
        stmt_expr := fun _ e hc he => hc.2.here e he
        stmt_child := fun _ _ hc hb => ⟨hc.1.child hb, hc.2.child hb⟩ }
    have hvisits := visits_spend R fun c hc w => ih hc.1 hc.2 w
    have hchildren : ∀ c ∈ A.env.program.stmtChildren id, R.stmts c :=
      fun c hc => ⟨hdepth.2 c hc, hends.child hc⟩
    exact toCheck_meets hvisits (statement_meets hends hdepth.1 hchildren w) rfl

lemma visits_spend_everywhere :
    Visits.Fulfil (visits A.env) A.everywhere.contract (fun _ _ => True) (fun w s => w.1 = s) :=
  visits_spend A.everywhere fun _ hid w => stmtWithin_spends hid hid w

lemma registered_spends (imports : List Ident) :
    ∃ v : A.World, v.1 = registered A.env imports ∧ State.Spends A.d []
      (A.d.marksIn (imports.map (·.span)) + (A.env.program.items.map A.registerCost).sum) {} v.1 := by
  let start : A.World := ⟨{}, fun _ => .of_empty rfl rfl, by simp⟩
  have himports : A.everywhere.Costs (A.d.marksIn (imports.map (·.span)))
      (imports.forM declareImport) := by
    rw [marksIn_map]
    refine .forM fun binding _ => ?_
    exact (introduce_costs (by simp) rfl rfl).le (A.d.charge_le_marks _ binding.span)
  have hrule := himports.bind fun _ =>
    registerDeclarations_costs A.env.program.items
  exact (meets_performing_iff.mp (toCheck_meets visits_spend_everywhere (hrule start) rfl)).2

lemma program_spends (hends : ∀ id ∈ A.env.program.items, A.env.program.StmtEnds id)
    (imports : List Ident) : (((program A.env imports).run {}).2).foreseen A.d ≤
      A.d.marksIn (imports.map (·.span)) + (A.env.program.items.map A.stmtTotal).sum := by
  obtain ⟨v, hv, hregistered⟩ := registered_spends (A := A) imports
  have hdeclared : ∀ id ∈ A.env.program.items, A.env.program.isType id ∨ A.env.program.isFunction id →
      ∃ made, (id, made) ∈ v.1.declarations := by
    intro id hid hkind
    have hsome := registered_declares A.env imports hid hkind
    rw [← hv] at hsome
    obtain ⟨made, hmade⟩ := Option.isSome_iff_exists.mp hsome
    exact ⟨made, mem_of_lookup_eq_some hmade⟩
  have hitems := visitItems_meets (R := A.everywhere) hends hdeclared
  obtain ⟨-, u, hu, hspent⟩ :=
    meets_performing_iff.mp (toCheck_meets visits_spend_everywhere hitems rfl)
  have hsum : (A.env.program.items.map A.registerCost).sum +
      (A.env.program.items.map fun id => A.stmtTotal id - A.registerCost id).sum =
      (A.env.program.items.map A.stmtTotal).sum := by
    rw [← sum_map_add]
    refine congrArg sum (map_congr_left fun id hid => ?_)
    exact Nat.add_sub_of_le (registerCost_le (hends id hid))
  have hfinal : ((program A.env imports).run {}).2 = u.1 := by
    rw [program_eq_registration, run_bind, hu, hv]
    rfl
  have hbefore := hregistered.foreseen
  have hafter := hspent.foreseen
  have hstart : State.foreseen A.d {} = 0 := rfl
  rw [hfinal]
  omega

end Check

/-- A diagnostic is reported as often as it stands somewhere in the program, and again where it is
about a type parameter that repeats a name. -/
lemma Audit.check_count_le {A : Audit} (hsingle : A.env.program.SingleUse)
    (hacyclic : A.env.program.Acyclic) (imports : List Ident) :
    (check A.env.program A.env.options imports).diagnostics.entries.toList.count A.d ≤
      A.d.marksIn (imports.map (·.span) ++ A.env.program.spans) + A.repeats := by
  have hcount : (check A.env.program A.env.options imports).diagnostics.entries.toList.count A.d ≤
      (((Check.program A.env imports).run {}).2).foreseen A.d := Nat.le_add_right _ _
  have hforeseen := Check.program_spends (A := A) (fun id _ => (hacyclic.stmt id).ends) imports
  have hitems := sum_stmtTotal_le hsingle hacyclic
  rw [marksIn_append]
  omega

section Reports

variable {p : Program} {d : Diagnostic}

lemma charge_eq_zero (h : d.code.isPerElement → d.span ∉ p.spreadSpans.map some) {span : Span}
    (hspan : span ∈ p.spreadSpans) (code : Code) (hcode : code.isPerElement) :
    d.charge (some code) span = 0 := by
  unfold charge
  split
  · rename_i htopic
    rw [← code_of_topic htopic] at hcode
    exact if_neg fun hd => h hcode (mem_map.mpr ⟨span, hspan, hd.symm⟩)
  · rfl

lemma Diagnostic.marksIn_le_one {spans : List Span} (h : spans.Nodup) : d.marksIn spans ≤ 1 := by
  rw [marksIn_eq_count]
  exact nodup_iff_count_le_one.mp (h.map (Option.some_injective _)) _

/-- A check reports nothing twice, if all spans are different, nothing is referred to twice and no
function has two parameters of one name, but for two exceptions. A type parameter that has the name
of an earlier one of the same function or record may be reported twice. And where a call spreads
anything but a tuple written out, what is wrong with several elements is reported for each of them at
the span of the argument. -/
theorem check_reports_once (options : Options) (imports : List Ident) (hacyclic : p.Acyclic)
    (hsingle : p.SingleUse) (hspans : (imports.map (·.span) ++ p.spans).Nodup)
    (hparams : p.DistinctParams) (hspread : d.code.isPerElement → d.span ∉ p.spreadSpans.map some) :
    (check p options imports).diagnostics.entries.toList.count d ≤ 2 ∧
      (d.span ∉ p.repeatedTypeParams.map some →
        (check p options imports).diagnostics.entries.toList.count d ≤ 1) := by
  let A : Audit :=
    { env := ⟨p, options⟩
      d
      params := fun _ _ hkind => hparams.nodup hkind
      spreads := fun _ hspan => charge_eq_zero hspread hspan }
  have hcount := Audit.check_count_le (A := A) hsingle hacyclic imports
  have hone : A.d.marksIn (imports.map (·.span) ++ p.spans) ≤ 1 := Diagnostic.marksIn_le_one hspans
  constructor
  · have hrepeats : A.repeats ≤ 1 := (Audit.repeats_le hsingle hacyclic).trans
      (Diagnostic.marksIn_le_one (nodup_append.mp hspans).2.1)
    exact hcount.trans (Nat.add_le_add hone hrepeats)
  · intro hd
    have hrepeats : A.repeats = 0 := Audit.repeats_eq_zero hd
    exact hcount.trans (Nat.add_le_add hone hrepeats.le)

/-- A record that repeats a type parameter, with a field and a method that mention an alias declared
later, whose target is the name of no type. -/
def repeatSample : Program where
  statements := #[
    ⟨{ line := 1 }, .function {
      name := ⟨"get", { line := 2 }⟩, body := { span := { line := 3 } }
      params := [{ name := "x", span := { line := 4 }, type := some (.named { line := 5 } "A" []) }] }⟩,
    ⟨{ line := 6 }, .record .structType {
      name := ⟨"S", { line := 7 }⟩, methods := [⟨0⟩]
      typeParams := [⟨"T", { line := 8 }⟩, ⟨"T", { line := 9 }⟩]
      fields := [{ name := "f", span := { line := 10 }, type := .named { line := 11 } "A" [] }] }⟩,
    ⟨{ line := 12 }, .typeAlias {
      name := ⟨"A", { line := 13 }⟩, target := .named { line := 14 } "Missing" [] }⟩]
  items := [⟨1⟩, ⟨2⟩]

theorem check_reports_once_sample :
    repeatSample.Acyclic ∧ repeatSample.SingleUse ∧ repeatSample.spans.Nodup ∧
      repeatSample.DistinctParams ∧ repeatSample.repeatedTypeParams = [{ line := 9 }] ∧
      (check repeatSample {} []).diagnostics.entries.toList.map (·.span) =
        [some { line := 9 }, some { line := 14 }, some { line := 9 }] ∧
      (check repeatSample {} []).diagnostics.entries.toList.count
        ((Finding.unknownType "Missing").toDiagnostic { line := 14 }) ≤ 1 ∧
      (check repeatSample {} []).diagnostics.entries.toList.count
        ((Finding.typeRedeclared "T" .typeParam).toDiagnostic { line := 9 }) ≤ 2 := by
  have hacyclic : repeatSample.Acyclic := Program.acyclic_of_indices (by decide) (by decide)
  have hsingle : repeatSample.SingleUse := ⟨by decide, by decide⟩
  have hspans : repeatSample.spans.Nodup := by decide
  have hparams : repeatSample.DistinctParams := by decide
  refine ⟨hacyclic, hsingle, hspans, hparams, by decide, by decide +kernel, ?_, ?_⟩
  · exact (check_reports_once {} [] hacyclic hsingle hspans hparams (by decide)).2 (by decide)
  · exact (check_reports_once {} [] hacyclic hsingle hspans hparams (by decide)).1

/-- A struct that repeats a type parameter. -/
def repeatedParam : Program where
  statements := #[⟨{ line := 10 }, .record .structType {
    name := ⟨"S", { line := 11 }⟩
    typeParams := [⟨"T", { line := 12 }⟩, ⟨"T", { line := 13 }⟩] }⟩]
  items := [⟨0⟩]

/-- A call that spreads a pair of strings where integers are expected. -/
def spreadPair : Program where
  expressions := #[⟨{ line := 1 }, .name "f"⟩, ⟨{ line := 2 }, .name "pair"⟩,
    ⟨{ line := 3 }, .call ⟨0⟩ [{ kind := .spread, value := ⟨1⟩, span := { line := 4 } }]⟩]
  statements := #[
    ⟨{ line := 5 }, .function {
      name := ⟨"f", { line := 6 }⟩, body := { span := { line := 7 } }
      params := [{
        name := "xs", span := { line := 8 }, kind := .variadic
        type := some (.named { line := 9 } "i32" []) }] }⟩,
    ⟨{ line := 10 }, .bind {
      name := ⟨"pair", { line := 11 }⟩
      type := some (.tuple { line := 12 } [.named { line := 13 } "string" [],
        .named { line := 14 } "string" []]) }⟩,
    ⟨{ line := 15 }, .expr ⟨2⟩⟩]
  items := [⟨0⟩, ⟨1⟩, ⟨2⟩]

/-- Both exceptions are needed. -/
theorem check_reports_once_exceptions :
    (repeatedParam.Acyclic ∧ repeatedParam.SingleUse ∧ repeatedParam.spans.Nodup ∧
      repeatedParam.DistinctParams ∧ repeatedParam.spreadSpans = [] ∧
      ¬ (check repeatedParam {} []).diagnostics.entries.toList.Nodup) ∧
    spreadPair.Acyclic ∧ spreadPair.SingleUse ∧ spreadPair.spans.Nodup ∧ spreadPair.DistinctParams ∧
      spreadPair.repeatedTypeParams = [] ∧
      ¬ (check spreadPair {} []).diagnostics.entries.toList.Nodup :=
  ⟨⟨Program.acyclic_of_indices (by decide) (by decide), ⟨by decide, by decide⟩, by decide, by decide,
    by decide, by decide +kernel⟩, Program.acyclic_of_indices (by decide) (by decide),
    ⟨by decide, by decide⟩, by decide, by decide, by decide, by decide +kernel⟩

end Reports

end StaticTyping
