import StaticTyping.Proofs.Distinct.Audit

/-! What it costs to expand aliases and to check expressions. A written type costs what stands in it,
whatever aliases it mentions, because what the target of an alias costs is foreseen since its
declaration. -/

namespace StaticTyping

open Rule Diagnostic State StaticTyping.Action Audit.Reach Nat

/-- Once the target of an alias is resolved, the alias is filled in. It was still open, because inside
its own expansion nothing of its name is touched, and what its target cost is made up for. -/
lemma State.Spends.fillType {d : Diagnostic} {active : List String} {id : SymbolId}
    {target : TypeExpr} {s t : State} (hopen : (s.symbols.get id).ty = none)
    (htarget : (s.symbols.get id).aliasTarget = some target)
    (hnew : (s.symbols.get id).name ∉ active)
    (h : Spends d ((s.symbols.get id).name :: active) (d.marksIn target.spans) s t) (ty : Ty) :
    Spends d active 0 s ((fillType id ty).step t).2 := by
  have hlt : id.index < s.symbols.size := lt_of_aliasTarget (by simp [htarget])
  obtain ⟨-, hstill⟩ := h.spared id hlt (.head _)
  refine ⟨?_, h.declarations, fun other hother hactive => ?_⟩
  · have hreleased := foreseen_fillType (d := d) (hstill ▸ hopen) (hstill ▸ htarget) ty
    have hspent := h.foreseen
    omega
  · have hne : other ≠ id := fun heq => hnew (heq ▸ hactive)
    obtain ⟨hbound, hsame⟩ := h.spared other hother (.tail _ hactive)
    refine ⟨?_, (t.symbols.get_modify_of_ne _ hne).trans hsame⟩
    simpa [Action.step, modifySymbol] using hbound

namespace Audit.Reach

variable {A : Audit} {R : A.Reach}

/-- An alias that is expanded is filled in, by which all that its target cost is made up for. Inside
other expansions it may close a cycle. -/
lemma expandAlias_spends (active : List String) (id : SymbolId) (span : Span) (cyclic : Cyclic)
    (w : A.World) :
    (expandAlias active id span cyclic).Meets R.contract w fun _ v => Spends A.d active
      (if active = [] then 0 else A.d.charge (some .aliasCycle) span) w.1 v.1 := by
  have hnothing : Spends A.d active
      (if active = [] then 0 else A.d.charge (some .aliasCycle) span) w.1 w.1 :=
    (Spends.refl w.1).le (zero_le _)
  refine (symbol_meets id w).bind ?_
  rintro _ v ⟨rfl, rfl⟩
  cases hty : (v.1.symbols.get id).ty with
  | some ty => exact hnothing
  | none =>
    cases htarget : (v.1.symbols.get id).aliasTarget with
    | none => exact hnothing
    | some target =>
      dsimp only
      split
      · rename_i hactive
        -- Something is being expanded here, or there were no cycle.
        have hne : active ≠ [] := by
          rintro rfl
          simp at hactive
        rw [if_neg hne]
        exact (report_costs .aliasCycle rfl).andPure v
      · rename_i hnew
        have hname : (v.1.symbols.get id).name ∉ active := by simpa using hnew
        refine ((resolveIn_does target cyclic).costs v).bind fun found u hu => ?_
        refine .bind ⟨trivial, fun _ t ht => ?_⟩ fun _ t ht => ht
        have hfilled := hu.fillType hty htarget hname
          (if found.2.contains (v.1.symbols.get id).name then .error else found.1)
        rw [ht] at hfilled
        exact hfilled.le (zero_le _)

def nowhere (A : Audit) : A.Reach where
  exprs _ := False
  stmts _ := False
  expr_ends _ h := h.elim
  expr_child _ _ h _ := h.elim
  stmt_ends _ h := h.elim
  stmt_expr _ _ h _ := h.elim
  stmt_child _ _ h _ := h.elim

lemma act_fulfil {β : Type} {action : Action β} {w : A.World} {s : State} (hw : w.1 = s)
    (h : R.contract.requires (.act action) w) : True ∧ ∃ v : A.World, v.1 = (action.step s).2 ∧
      R.contract.ensures (.act action) w (action.step s).1 v := by
  subst hw
  exact ⟨trivial, ⟨_, w.2.step h⟩, rfl, rfl⟩

end Audit.Reach

namespace Check

variable {A : Audit}

lemma expandWithin_spends (depth : Nat) (active : List String) (id : SymbolId) (span : Span)
    (cyclic : Cyclic) (w : A.World) :
    (expandWithin depth active id span cyclic).Meets (performing fun _ _ => True) w.1
      fun _ t => ∃ v : A.World, v.1 = t ∧ Spends A.d active
        (if active = [] then 0 else A.d.charge (some .aliasCycle) span) w.1 v.1 := by
  induction depth generalizing active id span cyclic w with
  | zero =>
    refine ⟨trivial, ?_⟩
    rintro _ _ ⟨⟩
    exact ⟨w, rfl, (Spends.refl w.1).le (zero_le _)⟩
  | succ depth ih =>
    have hvisits : Visits.Fulfil { expand := expandWithin depth } (nowhere A).contract
        (fun _ _ => True) (fun w s => w.1 = s) :=
      { act := act_fulfil
        expr := fun _ hfalse => hfalse.elim
        stmt := fun _ hfalse => hfalse.elim
        expand := fun {active id span cyclic w s} hw _ => hw ▸ ih active id span cyclic w }
    exact Rule.toCheck_meets hvisits (expandAlias_spends active id span cyclic w) rfl

lemma expand_spends (active : List String) (id : SymbolId) (span : Span) (cyclic : Cyclic)
    (w : A.World) : (expand active id span cyclic).Meets (performing fun _ _ => True) w.1
      fun _ t => ∃ v : A.World, v.1 = t ∧ Spends A.d active
        (if active = [] then 0 else A.d.charge (some .aliasCycle) span) w.1 v.1 := by
  refine ⟨trivial, ?_⟩
  rintro _ _ ⟨⟩
  exact expandWithin_spends _ active id span cyclic w

lemma exprWithin_spends {depth : Nat} {id : ExprId} (role : Role)
    (hdepth : EndsWithin A.env.program.exprChildren (fun _ => True) depth id)
    (hends : A.env.program.ExprEnds id) (w : A.World) :
    (exprWithin A.env depth role id).Meets (performing fun _ _ => True) w.1 fun _ t =>
      ∃ v : A.World, v.1 = t ∧ Spends A.d [] (A.visitCost id) w.1 v.1 := by
  induction depth generalizing id role w with
  | zero => exact hdepth.elim
  | succ depth ih =>
    let R : A.Reach :=
      { nowhere A with
        exprs := fun c => EndsWithin A.env.program.exprChildren (fun _ => True) depth c ∧
          A.env.program.ExprEnds c
        expr_ends := fun _ hc => hc.2
        expr_child := fun _ _ hc hb => ⟨hc.1.child hb, hc.2.child hb⟩
        stmt_expr := fun _ _ hfalse _ => hfalse.elim }
    have hvisits : Visits.Fulfil { expr := exprWithin A.env depth, expand } R.contract
        (fun _ _ => True) (fun w s => w.1 = s) :=
      { act := act_fulfil
        expr := fun {role c w s} hw hc => hw ▸ ih role hc.1 hc.2 w
        stmt := fun _ hfalse => hfalse.elim
        expand := fun {active id span cyclic w s} hw _ => hw ▸ expand_spends active id span cyclic w }
    have hchildren : ∀ c ∈ A.env.program.exprChildren id, R.exprs c :=
      fun c hc => ⟨hdepth.2 c hc, hends.child hc⟩
    have hrule := expression_does R.descends hchildren (fun _ _ _ => trivial)
      (fun _ _ _ _ => trivial) role
    exact Rule.toCheck_meets hvisits (hrule.costs w) rfl

end Check

end StaticTyping
