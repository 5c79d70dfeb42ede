import StaticTyping.Proofs.Output.Sequence
import StaticTyping.Proofs.Scopes.Assignment

/-! Only names in scope are narrowed. A branch narrows a name that its condition has read, and the name
is then bound in a scope around the branch. So a name has a type as a value wherever it is bound, and
only there. -/

namespace StaticTyping

open ScopeStack Rule StaticTyping.Action Finding List Option Check Program Diagnostics

variable {β α : Type} {action : Action β} {id : StmtId} {s : State} {name : String}

/-- Each name that a scope narrows is bound in that scope or in one around it. -/
def NarrowsBound : List Frame → Prop
  | [] => True
  | frame :: rest =>
    (∀ entry ∈ frame.narrowed, (boundIn (frame :: rest) entry.1).isSome) ∧ NarrowsBound rest

namespace NarrowsBound

variable {frame : Frame} {frames : List Frame} {name : String}

lemma push (h : NarrowsBound frames) : NarrowsBound ({} :: frames) :=
  ⟨fun _ hentry => absurd hentry not_mem_nil, h⟩

lemma replace (h : NarrowsBound (frame :: frames)) {after : Frame}
    (hnarrowed : after.narrowed ⊆ frame.narrowed)
    (hvalues : ∀ name, (frame.values.lookup name).isSome → (after.values.lookup name).isSome) :
    NarrowsBound (after :: frames) := by
  refine ⟨fun entry hentry => ?_, h.2⟩
  have hbound := h.1 entry (hnarrowed hentry)
  rw [boundIn_cons, isSome_or, Bool.or_eq_true] at hbound ⊢
  exact hbound.imp (hvalues entry.1) id

lemma narrow (h : NarrowsBound (frame :: frames)) (hname : (boundIn (frame :: frames) name).isSome)
    (ty : Ty) : NarrowsBound (frame.narrow name ty :: frames) := by
  refine ⟨forall_mem_cons.mpr ⟨hname, fun entry hentry => ?_⟩, h.2⟩
  exact h.1 entry (mem_of_mem_filter hentry)

lemma clearFrames (h : NarrowsBound frames) (name : String) :
    NarrowsBound (ScopeStack.clearFrames name frames) := by
  induction frames with
  | nil => exact h
  | cons frame rest ih =>
    have hkeeps := (keeps_clearFrames name (frame :: rest)).boundIn_eq
    rw [ScopeStack.clearFrames] at hkeeps ⊢
    refine ⟨fun entry hentry => ?_, ?_⟩
    · rw [hkeeps]
      exact h.1 entry (mem_of_mem_filter hentry)
    · split
      · exact h.2
      · exact ih h.2

lemma isSome_tracked?_iff (h : NarrowsBound frames) (name : String) :
    (frames.findSome? (·.tracked? name)).isSome ↔ (boundIn frames name).isSome := by
  induction frames with
  | nil => exact .rfl
  | cons frame rest ih =>
    have hrest := ih h.2
    cases hnarrowed : frame.narrowed.lookup name with
    | some ty =>
      have hbound := h.1 _ (mem_of_lookup_eq_some hnarrowed)
      simpa [findSome?_cons, Frame.tracked?, hnarrowed] using hbound
    | none =>
      cases hvalue : frame.values.lookup name with
      | some id => simp [Frame.tracked?, hnarrowed, boundIn_cons, hvalue]
      | none =>
        simpa [findSome?_cons, Frame.tracked?, hnarrowed, boundIn_cons, hvalue] using hrest

end NarrowsBound

/-- A name that is narrowed is in scope when it is. -/
def Action.NarrowsIn (scopes : ScopeStack) {β : Type} : Action β → Prop
  | .narrow name _ => (scopes.lookupValue name).isSome
  | _ => True

lemma Action.narrowsIn_of_not (h : ¬ action.Narrowing) (scopes : ScopeStack) :
    action.NarrowsIn scopes := by
  cases action with
  | narrow name ty => exact absurd trivial h
  | _ => trivial

lemma ScopeStack.narrowsBound_declareValue {s after : ScopeStack} {id : SymbolId}
    (h : NarrowsBound s.frames) (hafter : s.declareValue name id = .ok after) :
    NarrowsBound after.frames := by
  unfold declareValue at hafter
  split at hafter
  · cases hafter
  · cases hafter
    refine h.replace (fun _ hentry => mem_of_mem_filter hentry) fun key hkey => ?_
    by_cases hname : key = name
    · simp [hname]
    · simpa [lookup_cons, beq_false_of_ne hname] using hkey

lemma Action.narrowsBound_step (h : NarrowsBound s.scopes.frames) (haction : action.NarrowsIn s.scopes) :
    NarrowsBound (action.step s).2.scopes.frames := by
  cases action with
  | pushScope => exact h.push
  | popScope =>
    simp only [step, pop]
    split
    · exact h
    · rename_i frame rest houter
      have hrest := h.2
      rwa [houter] at hrest
  | narrow name ty => exact h.narrow haction ty
  | clearNarrowing name => exact h.clearFrames name
  | declareValue name id =>
    simp only [step]
    split
    · exact narrowsBound_declareValue h ‹_›
    · exact h
  | declareType name id =>
    simp only [step, ScopeStack.declareType]
    split
    · rename_i hafter
      split at hafter
      · cases hafter
      · cases hafter
        exact h.replace (List.Subset.refl _) fun _ hname => hname
    · exact h
  | lookupValueType name =>
    simp only [step]
    split <;> exact h
  | _ => exact h

lemma Action.Local.not_narrowing (h : action.Local) : ¬ action.Narrowing := by
  cases action with
  | narrow name ty => exact h.elim
  | _ => exact not_false

lemma Check.narrowsBound_along {x : Check α}
    (hx : x.Along (fun action _ => ¬ action.Narrowing) s) (h : NarrowsBound s.scopes.frames) :
    x.Along (fun _ t => NarrowsBound t.scopes.frames) s ∧
      NarrowsBound (x.run s).2.scopes.frames := by
  induction x generalizing s with
  | done a => exact ⟨trivial, h⟩
  | ask action next ih =>
    obtain ⟨halong, hlast⟩ := ih _ hx.2 (narrowsBound_step h (narrowsIn_of_not hx.1 _))
    exact ⟨⟨h, halong⟩, hlast⟩

lemma Narrowing.name_of_ofType? {holdsForNull : Bool} {ty : Ty} {n : Narrowing}
    (h : ofType? name holdsForNull ty = some n) : n.name = name := by
  unfold ofType? at h
  split at h
  · cases h
  · split at h <;> cases h <;> rfl

abbrev BoundScopes : Type := { scopes : ScopeStack // NarrowsBound scopes.frames }

namespace Rule

variable {α : Type} {env : Env} {p : Program} {B : StmtId → Prop} {w : BoundScopes} {x : Rule α}

/-- The contract for rules that narrow names in scope only. Statements in `B` are visited, and
expressions from which the way down ends. -/
def scoping (p : Program) (B : StmtId → Prop) : Contract Request BoundScopes where
  requires
    | .act action, w => action.NarrowsIn w.1
    | .expr _ id, _ => p.ExprEnds id
    | .stmt id, _ => B id
    | .expand active _ _ _, _ => active = []
  ensures
    | .act action, w, answer, v => ∃ s : State, s.scopes = w.1 ∧ (action.step s).1 = answer ∧
        (action.step s).2.scopes = v.1
    | .expr _ _, w, _, v => KeepsAll w.1.frames v.1.frames
    | .stmt _, w, _, v => w.1.Extends v.1
    | .expand _ _ _ _, w, _, v => v = w

lemma Silent.scoped (hx : Silent True [] x) (w : BoundScopes) :
    x.Meets (scoping p B) w fun _ v => v = w := by
  refine Steps.Uses.meets (I := (· = w)) (fun request u hrequest hu => ?_) hx rfl
  cases request with
  | act action =>
    refine ⟨narrowsIn_of_not ?_ _, ?_⟩
    · cases action with
      | narrow name ty => exact hrequest.1.elim
      | _ => exact not_false
    · rintro answer v ⟨s, hs, -, hv⟩
      have hsame : (action.step s).2.scopes = s.scopes := congrArg Outline.scopes
        ((action.outline_step s).trans ((Resolving.of_silent hrequest.1).outline_eq _))
      exact (Subtype.ext (hv.symm.trans (hsame.trans hs))).trans hu
  | expr | stmt => exact hrequest.elim
  | expand => exact ⟨hrequest, fun _ v hv => hv.trans hu⟩

lemma perform_scoped (action : Action α) (f : ScopeStack → ScopeStack)
    (hf : ∀ s, (action.step s).2.scopes = f s.scopes) (h : action.NarrowsIn w.1) :
    (perform action).Meets (scoping p B) w fun _ v => v.1 = f w.1 := by
  refine ⟨h, ?_⟩
  rintro answer v ⟨s, hs, -, hv⟩
  exact hv.symm.trans ((hf s).trans (congrArg f hs))

lemma visitStmt_scoped (h : B id) (w : BoundScopes) :
    (visitStmt id).Meets (scoping p B) w fun _ v => w.1.Extends v.1 :=
  ⟨h, fun _ _ hv => hv⟩

lemma visitStmts_scoped {ids : List StmtId} (h : ∀ id ∈ ids, B id) (w : BoundScopes) :
    (ids.forM visitStmt).Meets (scoping p B) w fun _ v => KeepsAll w.1.outer v.1.outer := by
  induction ids generalizing w with
  | nil => exact .refl _
  | cons id rest ih =>
    obtain ⟨hid, hrest⟩ := forall_mem_cons.mp h
    refine (visitStmt_scoped hid w).bind fun _ v hv => ?_
    exact (ih hrest v).mono fun _ u hu => hv.outer.trans hu

lemma lookupValueType_scoped (name : String) (w : BoundScopes) :
    (perform (.lookupValueType name)).Meets (scoping p B) w fun found _ =>
      found.isSome → (w.1.lookupValue name).isSome := by
  refine ⟨trivial, ?_⟩
  rintro _ v ⟨s, hs, rfl, -⟩ hsome
  refine (NarrowsBound.isSome_tracked?_iff w.2 name).mp ?_
  change (w.1.tracked? name).isSome
  rw [← hs]
  cases htracked : s.scopes.tracked? name with
  | some found => rfl
  | none => simp [step, ScopeStack.valueType, htracked] at hsome

/-- A name that a condition says something of was read there, so that it is in scope. -/
lemma findNarrowing_scoped (condition : ExprId) (w : BoundScopes) :
    (findNarrowing p condition).Meets (scoping p B) w fun found v =>
      (∀ n ∈ found, (w.1.lookupValue n.name).isSome) ∧ v = w := by
  refine .and ?_ ((findNarrowing_does p condition).silent.scoped w)
  unfold findNarrowing
  cases p.nullCondition? condition with
  | none => simp
  | some test =>
    refine (lookupValueType_scoped test.1 w).bind fun current v hcurrent n hn => ?_
    obtain ⟨ty, rfl, hty⟩ := bind_eq_some_iff.mp hn
    rw [Narrowing.name_of_ofType? hty]
    exact hcurrent rfl

lemma checkBranch_scoped {narrowed : Option (String × Ty)} {block : Block}
    (h : ∀ c ∈ block.statements, B c)
    (hbound : ∀ entry ∈ narrowed, (w.1.lookupValue entry.1).isSome) :
    (checkBranch narrowed block).Meets (scoping p B) w fun _ v => KeepsAll w.1.frames v.1.frames := by
  refine (perform_scoped .pushScope push (fun _ => rfl) trivial).bind fun _ u hu => ?_
  -- The scope of the branch is the innermost one now, and those around it are all that was there.
  have houter : u.1.outer = w.1.frames := congrArg outer hu
  have hinside (v : BoundScopes) (hv : v.1.outer = w.1.frames) :
      (block.statements.forM visitStmt >>= fun _ => perform .popScope).Meets (scoping p B) v
        fun _ v => KeepsAll w.1.frames v.1.frames := by
    refine (visitStmts_scoped h v).bind fun _ t ht => ?_
    refine (perform_scoped .popScope pop (fun _ => rfl) trivial).mono fun _ r hr => ?_
    rw [hr]
    exact keeps_pop (hv ▸ ht)
  cases narrowed with
  | none => exact hinside u houter
  | some entry =>
    have hname : (u.1.lookupValue entry.1).isSome := hu ▸ hbound entry rfl
    refine (perform_scoped (.narrow entry.1 entry.2) (·.narrow entry.1 entry.2) (fun _ => rfl)
      hname).bind fun _ v hv => hinside v ?_
    rw [hv, ← houter]
    rfl

lemma checkIf_scoped {condition : ExprId} {consequent : Block} {alternative : Option Block}
    (hcondition : env.program.ExprEnds condition) (hconsequent : ∀ c ∈ consequent.statements, B c)
    (halternative : ∀ c ∈ alternative.toList.flatMap (·.statements), B c) (w : BoundScopes) :
    (checkIf env condition consequent alternative).Meets (scoping env.program B) w
      fun _ _ => True := by
  have hvisit : (visit (.value (some .bool)) condition).Meets (scoping env.program B) w
      fun _ _ => True := ⟨hcondition, fun _ _ _ => trivial⟩
  have hcheck : (checkCondition env condition).Meets (scoping env.program B) w fun _ _ => True :=
    hvisit.bind fun _ v _ => ((reportIf_silent _ _ _ (.inl rfl)).scoped v).mono fun _ _ _ => trivial
  refine hcheck.bind fun _ v _ => (findNarrowing_scoped condition v).bind fun narrowing u hu => ?_
  obtain ⟨hbound, rfl⟩ := hu
  have hentries (f : Narrowing → Ty) : ∀ entry ∈ narrowing.map fun n => (n.name, f n),
      (u.1.lookupValue entry.1).isSome := by
    intro entry hentry
    obtain ⟨n, hn, rfl⟩ := map_eq_some_iff.mp hentry
    exact hbound n hn
  refine (checkBranch_scoped hconsequent (hentries _)).bind fun _ v hv => ?_
  cases alternative with
  | none => trivial
  | some other =>
    -- What the first branch leaves of the scopes binds the name as well.
    refine (checkBranch_scoped (by simpa using halternative) fun entry hentry => ?_).mono
      fun _ _ _ => trivial
    rw [lookupValue_of_keeps hv]
    exact hentries _ entry hentry

lemma scoped_of_asks {A : {β : Type} → Action β → Prop} (hx : Asks A p.ExprEnds B x)
    (hA : ∀ {β : Type} (action : Action β), A action → ¬ action.Narrowing) (w : BoundScopes) :
    x.Meets (scoping p B) w fun _ _ => True := by
  refine Steps.Uses.meets (I := fun _ => True) (fun request u hrequest _ => ?_) hx.uses trivial
  refine ⟨?_, fun _ _ _ => trivial⟩
  cases request with
  | act action => exact narrowsIn_of_not (hA action hrequest) _
  | expr | stmt | expand => exact hrequest

lemma not_narrowing_of_performs (kind : StmtKind)
    (hkind : ∀ condition consequent alternative, kind ≠ .branch condition consequent alternative)
    (h : kind.Performs action) : ¬ action.Narrowing := by
  cases action with
  | narrow name ty =>
    cases kind with
    | branch condition consequent alternative => exact absurd rfl (hkind _ _ _)
    | function | record | typeAlias => exact h.elim False.elim False.elim
    | enum decl => exact h.elim False.elim (Or.elim · False.elim False.elim)
    | _ => exact h.elim
  | _ => exact not_false

lemma statement_scoped (h : StmtDescends env.program B)
    (hexprs : ∀ e ∈ (env.program.stmt id).kind.exprs, env.program.ExprEnds e)
    (hchildren : ∀ c ∈ env.program.stmtChildren id, B c) (w : BoundScopes) :
    (statement env id).Meets (scoping env.program B) w fun _ _ => True := by
  by_cases hbranch : ∃ condition consequent alternative,
      (env.program.stmt id).kind = .branch condition consequent alternative
  · obtain ⟨condition, consequent, alternative, hkind⟩ := hbranch
    rw [stmtChildren, hkind] at hchildren
    rw [hkind] at hexprs
    obtain ⟨hconsequent, halternative⟩ := forall_mem_append.mp hchildren
    have hrule : statement env id = checkIf env condition consequent alternative := by
      simp only [statement, hkind]
    rw [hrule]
    exact checkIf_scoped (hexprs condition (.head _)) hconsequent halternative w
  · have hmethods : ∀ m ∈ env.program.stmtChildren id, ∀ e ∈ (env.program.stmt m).kind.exprs,
        env.program.ExprEnds e := fun m hm => (h.ends m (hchildren m hm)).here
    exact scoped_of_asks (statement_asks hexprs hmethods hchildren fun m hm c => h.child m c (hchildren m hm))
      (fun action => not_narrowing_of_performs _ fun condition consequent alternative hkind =>
        hbranch ⟨condition, consequent, alternative, hkind⟩) w

end Rule

namespace Check

variable {env : Env}

lemma scoping_fulfil (env : Env) {B : StmtId → Prop} {stmt : StmtId → Check Unit}
    (h : ∀ id, B id → ∀ s : State, NarrowsBound s.scopes.frames →
      (stmt id).Meets (performing fun _ t => NarrowsBound t.scopes.frames) s fun _ t =>
        NarrowsBound t.scopes.frames ∧ s.scopes.Extends t.scopes) :
    Visits.Fulfil { expr := expr env, stmt, expand } (scoping env.program B)
      (fun _ t => NarrowsBound t.scopes.frames) (fun w s => s.scopes = w.1) where
  act {_ action w s} hw haction := by
    have hs : NarrowsBound s.scopes.frames := hw ▸ w.2
    have hstep : NarrowsBound (action.step s).2.scopes.frames := narrowsBound_step hs (hw ▸ haction)
    exact ⟨hs, ⟨_, hstep⟩, rfl, s, hw, rfl, rfl⟩
  expr := by
    rintro role id ⟨_, hs⟩ s rfl hends
    obtain ⟨hlocal, -, hkeeps⟩ := meets_performing_iff.mp (expr_meets hends role s)
    obtain ⟨halong, hlast⟩ := narrowsBound_along (hlocal.mono fun _ _ h => h.not_narrowing) hs
    exact meets_performing_iff.mpr ⟨halong, ⟨_, hlast⟩, rfl, hkeeps.scopes⟩
  stmt := by
    rintro id ⟨_, hs⟩ s rfl hid
    exact (h id hid s hs).mono fun _ t ht => ⟨⟨_, ht.1⟩, rfl, ht.2⟩
  expand := by
    rintro active id span cyclic ⟨_, hs⟩ s rfl hactive
    obtain rfl : active = [] := hactive
    obtain ⟨hresolving, houtline⟩ := meets_performing_iff.mp (expand_resolves id span cyclic s)
    obtain ⟨halong, hlast⟩ :=
      narrowsBound_along (hresolving.mono fun _ _ h => h.local.not_narrowing) hs
    refine meets_performing_iff.mpr ⟨halong, ⟨_, hlast⟩, rfl, Subtype.ext ?_⟩
    exact congrArg Outline.scopes houtline

lemma stmtWithin_narrowsBound {depth : Nat} (hdepth : env.program.StmtEndsWithin depth id)
    (hends : env.program.StmtEnds id) (hs : NarrowsBound s.scopes.frames) :
    (stmtWithin env depth id).Meets (performing fun _ t => NarrowsBound t.scopes.frames) s
      fun _ t => NarrowsBound t.scopes.frames ∧ s.scopes.Extends t.scopes := by
  have hscopes := (meets_performing_iff.mp (stmtWithin_meets hdepth hends s)).2.scopes
  induction depth generalizing id s with
  | zero => exact hdepth.elim
  | succ depth ih =>
    let B (c : StmtId) : Prop := env.program.StmtEndsWithin depth c ∧ env.program.StmtEnds c
    have hdescends : StmtDescends env.program B :=
      ⟨fun c hc => hc.2, fun a b ha hb => ⟨ha.1.child hb, ha.2.child hb⟩⟩
    have hvisits := scoping_fulfil env (B := B) fun c hc s hs =>
      ih hc.1 hc.2 hs (meets_performing_iff.mp (stmtWithin_meets hc.1 hc.2 s)).2.scopes
    have hrule := statement_scoped hdescends hdepth.1
      (fun c hc => ⟨hdepth.2 c hc, hends.child hc⟩) ⟨s.scopes, hs⟩
    obtain ⟨halong, w, hw, -⟩ := meets_performing_iff.mp (toCheck_meets hvisits hrule rfl)
    exact meets_performing_iff.mpr ⟨halong, hw ▸ w.2, hscopes⟩

lemma program_narrowsBound (hacyclic : env.program.Acyclic) (imports : List Ident) :
    ∀ s ∈ (program env imports).states {}, NarrowsBound s.scopes.frames := by
  have hvisits := scoping_fulfil env (B := env.program.StmtEnds) fun _ hid s hs =>
    stmtWithin_narrowsBound hid hid hs
  have hasks : Asks (fun action => ¬ action.Narrowing) env.program.ExprEnds env.program.StmtEnds
      (.program env imports) := by
    refine program_asks (fun action h => ?_) (fun action h => ?_) (fun _ _ => not_false)
      (fun id _ => (hacyclic.stmt id).ends) imports
    · exact not_narrowing_of_performs .breakLoop (by simp) h
    · exact not_narrowing_of_performs (.typeAlias default) (by simp) (.inr h)
  have hrule := scoped_of_asks hasks (fun _ h => h) ⟨{}, .push trivial⟩
  obtain ⟨halong, w, hw, -⟩ := meets_performing_iff.mp (toCheck_meets hvisits hrule (s := {}) rfl)
  exact forall_mem_states halong (hw ▸ w.2)

lemma reports_name_value {id : ExprId} (hends : env.program.ExprEnds id)
    (hkind : env.exprKind id = .name name) (hint : Option Ty) {found : Option Ty}
    (hfound : s.scopes.valueType s.symbols name = .ok found) :
    (expr env (.value hint) id).reports s =
      if found.isSome then [] else [(unknownIdentifier name).toDiagnostic (env.exprSpan id)] := by
  have hstep : (lookupValueType name).step s = (found, s) := by simp [step, hfound]
  refine reports_eq ?_
  rw [expr_eq_ofRule _ hends, expression, ofRule_bind, run_bind]
  simp only [Rule.roleType, Rule.valueType, hkind, Rule.nameType, ofRule_bind, run_bind,
    run_ofRule_perform, hstep]
  cases found with
  | none => exact toList_push _ _
  | some ty => exact (append_nil _).symm

lemma reports_name_target {id : ExprId} (hends : env.program.ExprEnds id)
    (hkind : env.exprKind id = .name name) (s : State) :
    (expr env .target id).reports s = match s.scopes.lookupValue name with
      | none => [(unknownIdentifier name).toDiagnostic (env.exprSpan id)]
      | some symbol => ((s.symbols.get symbol).assignmentFinding? name).toList.map
          (·.toDiagnostic (env.exprSpan id)) := by
  have hstep : (ofRule env (lookupValue name)).run s = (s.scopes.lookupValue name, s) := rfl
  refine reports_eq ?_
  rw [expr_eq_ofRule _ hends, expression, ofRule_bind, run_bind]
  simp only [Rule.roleType, targetType, hkind, nameTarget, ofRule_bind, run_bind, hstep]
  cases s.scopes.lookupValue name with
  | none => exact toList_push _ _
  | some symbol =>
    have hread : (ofRule env (.symbol symbol)).run s = (s.symbols.get symbol, s) := rfl
    simp only [ofRule_bind, run_bind, hread]
    cases (s.symbols.get symbol).assignmentFinding? name with
    | none => exact (append_nil _).symm
    | some finding => exact toList_push _ _

end Check

/-- Where what the scopes hold refers to symbols that exist, a name has a type if it is tracked. -/
lemma ScopeStack.exists_valueType {scopes : ScopeStack} {table : SymbolTable} {T : Ty → Prop}
    (h : scopes.Holds (·.index < table.size) T) (name : String) :
    ∃ found, scopes.valueType table name = .ok found ∧
      (found.isSome ↔ (scopes.tracked? name).isSome) := by
  cases htracked : scopes.tracked? name with
  | none => exact ⟨none, by simp [valueType, htracked]⟩
  | some tracked =>
    cases tracked with
    | narrowed ty => exact ⟨some ty, by simp [valueType, htracked]⟩
    | declared id => exact ⟨_, valueType_of_declared htracked (h.tracked htracked), by simp⟩

lemma Symbol.code_of_assignmentFinding? {symbol : Symbol} {finding : Finding}
    (h : symbol.assignmentFinding? name = some finding) :
    finding.code ∈ [.constAssignment, .parameterAssignment, .invalidAssignmentTarget] := by
  unfold assignmentFinding? mutationFinding? at h
  split at h
  · cases h
    simp [code]
  · cases h
    simp [code]
  · split at h
    · cases h
      simp [code]
    · split at h
      · cases h
        simp [code]
      · cases h

lemma Symbol.assignmentFinding?_code {symbol : Symbol} {finding : Finding}
    (h : symbol.assignmentFinding? name = some finding) : finding.code ≠ .unknownIdentifier := by
  intro hcode
  have hmem := code_of_assignmentFinding? h
  simp [hcode] at hmem

/-- At every point of a check, each name that a scope narrows is bound in that scope or in one around
it. So the names that have a type are those in scope, and a name is unknown where it is read if and
only if it is unknown where it is written to. -/
theorem check_narrows_bound {env : Env} (hacyclic : env.program.Acyclic) (imports : List Ident) :
    ∀ s ∈ (Check.program env imports).states {}, NarrowsBound s.scopes.frames ∧
      (∀ name, ∃ found, s.scopes.valueType s.symbols name = .ok found ∧
        (found.isSome ↔ (s.scopes.lookupValue name).isSome)) ∧
      ∀ id name hint, env.exprKind id = .name name →
        let unknown := (Finding.unknownIdentifier name).toDiagnostic (env.exprSpan id)
        (unknown ∈ (Check.expr env (.value hint) id).reports s ↔ s.scopes.lookupValue name = none) ∧
          (unknown ∈ (Check.expr env .target id).reports s ↔ s.scopes.lookupValue name = none) := by
  intro s hs
  have hbound := program_narrowsBound hacyclic imports s hs
  have hscopes := (program_sound env imports s hs).scopes
  have hfound (name : String) : ∃ found, s.scopes.valueType s.symbols name = .ok found ∧
      (found.isSome ↔ (s.scopes.lookupValue name).isSome) := by
    obtain ⟨found, hfound, hiff⟩ := ScopeStack.exists_valueType hscopes name
    exact ⟨found, hfound, hiff.trans (hbound.isSome_tracked?_iff name)⟩
  refine ⟨hbound, hfound, fun id name hint hkind => ⟨?_, ?_⟩⟩
  · obtain ⟨found, hvalue, hiff⟩ := hfound name
    rw [reports_name_value (hacyclic.expr id).ends hkind hint hvalue]
    have hnone : s.scopes.lookupValue name = none ↔ ¬ found.isSome := by
      rw [hiff, not_isSome_iff_eq_none]
    rw [hnone]
    split <;> simp [*]
  · rw [reports_name_target (hacyclic.expr id).ends hkind]
    cases s.scopes.lookupValue name with
    | none => simp
    | some symbol =>
      refine iff_of_false (fun hmem => ?_) (by simp)
      obtain ⟨finding, hfinding, heq⟩ := mem_map.mp hmem
      refine Symbol.assignmentFinding?_code (mem_toList.mp hfinding) ?_
      exact congrArg Diagnostic.code heq

/-- Where the name is narrowed it can be read and written to, and no other name can. -/
theorem check_narrows_bound_guarded :
    guardedWrite.program.Acyclic ∧ guardedState ∈ (Check.program guardedWrite []).states {} ∧
      guardedState.scopes.isNarrowed "name" = true ∧ NarrowsBound guardedState.scopes.frames ∧
      (guardedState.scopes.lookupValue "name").isSome ∧
      (Finding.unknownIdentifier "name").toDiagnostic {} ∉
        (Check.expr guardedWrite .target ⟨8⟩).reports guardedState ∧
      (∃ found, guardedState.scopes.valueType guardedState.symbols "s" = .ok found ∧
        found.isSome = false) := by
  have hacyclic : guardedWrite.program.Acyclic := acyclic_of_indices (by decide) (by decide)
  obtain ⟨hbound, hfound, hreports⟩ := check_narrows_bound hacyclic [] guardedState guardedState_mem
  have hname : guardedState.scopes.lookupValue "name" = some ⟨0⟩ := guardedState_lookupValue
  refine ⟨hacyclic, guardedState_mem, by decide +kernel, hbound, by rw [hname]; rfl, ?_, ?_⟩
  · intro hunknown
    have hnone := (hreports ⟨8⟩ "name" none rfl).2.mp hunknown
    rw [hname] at hnone
    cases hnone
  · obtain ⟨found, hvalue, hiff⟩ := hfound "s"
    have hunbound : (guardedState.scopes.lookupValue "s").isSome = false := by decide +kernel
    exact ⟨found, hvalue, by simpa [hunbound] using hiff⟩

end StaticTyping
