import StaticTyping.Proofs.Aliases.Cycle
import StaticTyping.Proofs.Inference.Once

/-! Aliases are expanded to the end, and each of them once. The names of the aliases that are being
expanded may as well be kept in a list of the state: it never holds a name twice, and each expansion
leaves it as it was. Once the target of an alias is resolved the alias has its type, and it is not
resolved again. -/

namespace StaticTyping

open StaticTyping.Action State Rule Check Nat

variable {α : Type} {active : List String} {s t u : State} {id : SymbolId}

/-- What expansions do where the names of the aliases that are being expanded are kept in a list. -/
inductive Guarded : Type → Type 1 where
  | act {α : Type} (action : Action α) : Guarded α
  | inProgress : Guarded (List String)
  | enter (name : String) : Guarded Unit
  | leave : Guarded Unit

namespace Guarded

def step : Guarded α → List String × State → α × (List String × State)
  | .act action, (active, s) => ((action.step s).1, active, (action.step s).2)
  | .inProgress, (active, s) => (active, active, s)
  | .enter name, (active, s) => ((), name :: active, s)
  | .leave, (active, s) => ((), active.tail, s)

/-- All that is done is done with a list of different names, and each name that is added to it is that
of an alias. -/
def performing : Contract Guarded (List String × State) where
  requires
    | .enter name, w => (name :: w.1).Nodup ∧ ∃ id, (w.2.symbols.get id).name = name ∧
        (w.2.symbols.get id).aliasTarget.isSome
    | _, w => w.1.Nodup
  ensures request w answer v := request.step w = (answer, v)

/-- In place of what a rule asks for. That others are being expanded is not told to the expansion. -/
def answer (expand : SymbolId → Span → Cyclic → Steps Guarded (Ty × Cyclic)) {β : Type} :
    Request β → Steps Guarded β
  | .act action => .lift (.act action)
  | .expr _ _ => .lift (.act .abandon) >>= fun _ => pure .error
  | .stmt _ => .lift (.act .abandon)
  | .expand _ id span cyclic => expand id span cyclic

/-- The type of an alias, by what is declared of it. -/
def expandDeclared (expand : SymbolId → Span → Cyclic → Steps Guarded (Ty × Cyclic)) (id : SymbolId)
    (span : Span) (cyclic : Cyclic) (declared : Symbol) : Steps Guarded (Ty × Cyclic) := do
  match declared.ty, declared.aliasTarget with
  | some ty, _ => return (ty, cyclic)
  | none, none => return (.error, cyclic)
  | none, some target =>
    let active ← Steps.lift .inProgress
    if active.contains declared.name then
      Steps.lift (.act (.report ((Finding.aliasCycle declared.name).toDiagnostic span)))
      return (.error, Rule.cycleThrough active declared.name ++ cyclic)
    else
      Steps.lift (.enter declared.name)
      let (expanded, cyclic) ←
        (Rule.resolveIn (declared.name :: active) target cyclic).handle (answer expand)
      Steps.lift .leave
      let ty := if cyclic.contains declared.name then .error else expanded
      Steps.lift (.act (.fillType id ty))
      return (ty, cyclic)

def expandWithin : Nat → SymbolId → Span → Cyclic → Steps Guarded (Ty × Cyclic)
  | 0, _, _, cyclic => do
    Steps.lift (.act .abandon)
    return (.error, cyclic)
  | depth + 1, id, span, cyclic => do
    let declared ← Steps.lift (.act (.readSymbol id))
    expandDeclared (expandWithin depth) id span cyclic declared

def resolveType (t : TypeExpr) : Steps Guarded Ty :=
  (Rule.resolveType t).handle (answer fun id span cyclic => do
    let count ← Steps.lift (.act .symbolCount)
    expandWithin (count + 1) id span cyclic)

/-- With the list as it is, the one does what the other does, and in the end the list is the same. -/
def Follows (active : List String) (x : Steps Guarded α) (y : Check α) : Prop :=
  ∀ s, x.Meets performing (active, s) fun a w => w.1 = active ∧ (a, w.2) = y.run s

lemma Follows.handle (visits : Visits) (hnodup : active.Nodup)
    {expand : SymbolId → Span → Cyclic → Steps Guarded (Ty × Cyclic)}
    (hexpand : ∀ id span cyclic, Follows active (expand id span cyclic) (visits.expand active id span cyclic))
    {x : Rule α} (hx : Rule.Silent True active x) :
    Follows active (x.handle (answer expand)) (x.toCheck visits) := by
  induction x with
  | done a => exact fun s => ⟨rfl, rfl⟩
  | ask request next ih =>
    intro s
    cases request with
    | act action =>
      refine ⟨hnodup, ?_⟩
      rintro _ _ ⟨⟩
      exact ih _ (hx.2 _) _
    | expr | stmt => exact hx.1.elim
    | expand around id span cyclic =>
      obtain rfl : active = around := hx.1.symm
      refine (hexpand id span cyclic s).bind ?_
      rintro found ⟨active, t⟩ ⟨rfl, hrun⟩
      have hbind : (toCheck visits (.ask (.expand active id span cyclic) next)).run s =
          (toCheck visits (next found)).run t := by
        refine (run_bind (visits.expand active id span cyclic) _ s).trans ?_
        rw [← hrun]
        rfl
      have hnext := ih found (hx.2 found) t
      rw [← hbind] at hnext
      exact hnext

lemma expandWithin_follows (depth : Nat) (hnodup : active.Nodup) (id : SymbolId) (span : Span)
    (cyclic : Cyclic) : Follows active (expandWithin depth id span cyclic)
      (Check.expandWithin depth active id span cyclic) := by
  induction depth generalizing active id span cyclic with
  | zero =>
    refine fun s => ⟨hnodup, ?_⟩
    rintro _ _ ⟨⟩
    exact ⟨rfl, rfl⟩
  | succ depth ih =>
    intro s
    have hread {Q : Ty × Cyclic → List String × State → Prop}
        (h : (expandDeclared (expandWithin depth) id span cyclic (s.symbols.get id)).Meets performing
          (active, s) Q) : (expandWithin (depth + 1) id span cyclic).Meets performing (active, s) Q := by
      refine ⟨hnodup, ?_⟩
      rintro _ _ ⟨⟩
      exact h
    have hends : Rule.Ends { expand := Check.expandWithin depth } (expandAlias active id span cyclic) s
        fun r t => (expandWithin (depth + 1) id span cyclic).Meets performing (active, s)
          fun a w => w.1 = active ∧ (a, w.2) = (r, t) := by
      refine expandAlias_cases ?_ ?_ ?_ ?_
      · intro ty hty
        refine hread ?_
        simp only [expandDeclared, hty]
        exact ⟨rfl, rfl⟩
      · intro hty htarget
        refine hread ?_
        simp only [expandDeclared, hty, htarget]
        exact ⟨rfl, rfl⟩
      · intro target hty htarget hactive
        refine hread ?_
        simp only [expandDeclared, hty, htarget]
        refine ⟨hnodup, ?_⟩
        rintro _ _ ⟨⟩
        show Steps.Meets _ (if _ then _ else _) _ _
        rw [if_pos (by simpa using hactive)]
        refine ⟨hnodup, ?_⟩
        rintro _ _ ⟨⟩
        exact ⟨rfl, rfl⟩
      · intro target hty htarget hidle
        refine hread ?_
        simp only [expandDeclared, hty, htarget]
        refine ⟨hnodup, ?_⟩
        rintro _ _ ⟨⟩
        show Steps.Meets _ (if _ then _ else _) _ _
        rw [if_neg (by simpa using hidle)]
        have hcons : ((s.symbols.get id).name :: active).Nodup := List.nodup_cons.mpr ⟨hidle, hnodup⟩
        refine ⟨⟨hcons, id, rfl, by simp [htarget]⟩, ?_⟩
        rintro _ _ ⟨⟩
        have hresolve := Follows.handle { expand := Check.expandWithin depth } hcons (ih hcons)
          (resolveIn_does target cyclic).silent s
        refine hresolve.bind ?_
        rintro found ⟨_, t⟩ ⟨rfl, hrun⟩
        refine ⟨hcons, ?_⟩
        rintro _ _ ⟨⟩
        refine ⟨hnodup, ?_⟩
        rintro _ _ ⟨⟩
        rw [← hrun]
        exact ⟨rfl, rfl⟩
    exact hends

end Guarded

/-- A symbol gets a type as an alias only if it is one and has none. -/
def Action.FillsOpen {β : Type} (s : State) : Action β → Prop
  | .fillType id _ => (s.symbols.get id).ty = none ∧ (s.symbols.get id).aliasTarget.isSome
  | _ => True

def Action.resolves (id : SymbolId) {β : Type} : Action β → ℕ
  | .fillType other _ => if other = id then 1 else 0
  | _ => 0

def State.pending (s : State) (id : SymbolId) : ℕ := if (s.symbols.get id).ty.isSome then 0 else 1

lemma Action.FillsOpen.resolves_add_le {β : Type} {action : Action β} (h : action.FillsOpen s)
    (id : SymbolId) : action.resolves id + (action.step s).2.pending id ≤ s.pending id := by
  have hkeeps (hkeeps : s.KeepsTypes (action.step s).2) :
      (action.step s).2.pending id ≤ s.pending id := by
    unfold State.pending
    cases hty : (s.symbols.get id).ty with
    | none => split <;> simp
    | some ty => simp [hkeeps id ty hty]
  cases action with
  | fillType other ty =>
    by_cases hother : other = id
    · subst hother
      simp [resolves, State.pending, h.1, s.fillType_isSome h.2]
    · have hsame := s.fillType_other (Ne.symm hother) ty
      simp [resolves, State.pending, hother, hsame]
  | setType other ty =>
    refine (zero_add _).trans_le ?_
    rcases s.symbols.get_modify_cases other id fun symbol => { symbol with ty := some ty } with hget | hget
    · exact (congrArg (fun symbol : Symbol => if symbol.ty.isSome then 0 else 1) hget).le
    · have hzero : ((Action.setType other ty).step s).2.pending id = 0 :=
        congrArg (fun symbol : Symbol => if symbol.ty.isSome then 0 else 1) hget
      exact hzero.trans_le (zero_le _)
  | _ =>
    refine (zero_add _).trans_le (hkeeps ?_)
    exact Action.Fills.keepsTypes (by trivial)

/-- Symbols of these names keep their types, or the lack of one. -/
structure State.Spares (active : List String) (s t : State) : Prop extends s.Refines t where
  same {id : SymbolId} : (s.symbols.get id).name ∈ active →
    (t.symbols.get id).ty = (s.symbols.get id).ty

namespace State.Spares

protected lemma refl (active : List String) (s : State) : s.Spares active s := ⟨.refl s, fun _ => rfl⟩

lemma of_symbols (hsymbols : t.symbols = s.symbols) (hscopes : t.scopes = s.scopes) :
    s.Spares active t :=
  ⟨.of_symbols hsymbols hscopes, fun _ => by rw [hsymbols]⟩

lemma trans (hst : s.Spares active t) (htu : t.Spares active u) : s.Spares active u := by
  refine ⟨hst.toRefines.trans htu.toRefines, fun {id} hid => ?_⟩
  rw [← hst.same hid]
  rw [← hst.name id] at hid
  exact htu.same hid

lemma fillType (h : s.Spares ((s.symbols.get id).name :: active) t)
    (hnew : (s.symbols.get id).name ∉ active) (ty : Ty) :
    s.Spares active ((Action.fillType id ty).step t).2 := by
  refine ⟨h.toRefines.trans (.fillType t id ty), fun {other} hother => ?_⟩
  have hne : other ≠ id := by
    rintro rfl
    exact hnew hother
  exact (t.fillType_other hne ty).trans (h.same (.tail _ hother))

end State.Spares

namespace Check

lemma Closed.of_meets {ok : {β : Type} → Action β → State → Prop} {R : State → State → Prop}
    (hrefl : ∀ s, R s s) (htrans : ∀ {a b c}, R a b → R b c → R a c) :
    Closed fun {α} (x : Check α) => ∀ s, x.Meets (performing ok) s fun _ t => R s t where
  pure _ := hrefl
  bind hx hf s := (hx s).bind fun a t ht => (hf a t).mono fun _ _ hu => htrans ht hu

/-- Symbols get types only as aliases that have none, and not if they have these names. -/
def Sparing (active : List String) (x : Check α) : Prop :=
  ∀ s, x.Meets (performing fun action s => action.FillsOpen s) s fun _ t => s.Spares active t

lemma silent_sparing {β : Type} {action : Action β} (h : action.Silent) :
    Sparing active (Steps.lift action) := by
  refine fun s => ⟨?_, fun answer after hafter => ?_⟩
  · cases action with
    | fillType => exact h.elim
    | _ => trivial
  · obtain rfl : (action.step s).2 = after := congrArg Prod.snd hafter
    rw [h.step_snd]
    exact .of_symbols rfl rfl

/-- While an alias is being expanded, it gets no type from the expansions inside. -/
lemma expandWithin_sparing (depth : Nat) (active : List String) (id : SymbolId) (span : Span)
    (cyclic : Cyclic) : Sparing active (expandWithin depth active id span cyclic) := by
  induction depth generalizing active id span cyclic with
  | zero =>
    refine fun s => ⟨trivial, ?_⟩
    rintro _ _ ⟨⟩
    exact .refl active s
  | succ depth ih =>
    refine fun s => ⟨trivial, ?_⟩
    rintro _ _ ⟨⟩
    show Steps.Meets _ (toCheck _ (match (s.symbols.get id).ty, (s.symbols.get id).aliasTarget with
      | some _, _ => _ | none, none => _ | none, some _ => _)) _ _
    cases hty : (s.symbols.get id).ty with
    | some ty => exact .refl active s
    | none =>
      cases htarget : (s.symbols.get id).aliasTarget with
      | none => exact .refl active s
      | some target =>
        dsimp only
        by_cases hactive : (s.symbols.get id).name ∈ active
        · rw [if_pos (by simpa using hactive)]
          refine ⟨trivial, ?_⟩
          rintro _ _ ⟨⟩
          exact .of_symbols rfl rfl
        · rw [if_neg (by simpa using hactive), toCheck_bind]
          have hresolve : Sparing ((s.symbols.get id).name :: active)
              (toCheck { expand := expandWithin depth }
                (resolveIn ((s.symbols.get id).name :: active) target cyclic)) :=
            (resolveIn_does target cyclic).silent.closed (.of_meets (.refl _) .trans)
              (fun _ h (_ : _ ∨ True) => silent_sparing h) (ih _)
          refine (hresolve s).bind fun r t ht => ?_
          have hopen : (t.symbols.get id).ty = none := (ht.same (.head _)).trans hty
          refine ⟨⟨hopen, by simp [ht.aliasTarget, htarget]⟩, ?_⟩
          rintro _ _ ⟨⟩
          exact ht.fillType hactive (expandedType (s.symbols.get id).name r)

/-- Symbols get types only as aliases that have none. -/
def Opening (x : Check α) : Prop :=
  ∀ s, x.Meets (performing fun action s => action.FillsOpen s) s fun _ _ => True

lemma program_opening (env : Env) (imports : List Ident) : Opening (program env imports) := by
  have hP : Closed @Opening := .of_meets (fun _ => trivial) fun _ _ => trivial
  have habandon : Opening (Steps.lift .abandon) := fun _ => ⟨trivial, fun _ _ _ => trivial⟩
  have hexpand (id : SymbolId) (span : Span) (cyclic : Cyclic) : Opening (expand [] id span cyclic) := by
    refine fun s => ⟨trivial, fun count _ _ => ?_⟩
    exact (expandWithin_sparing (count + 1) [] id span cyclic _).mono fun _ _ _ => trivial
  have hexpr (role : Role) (id : ExprId) : Opening (expr env role id) := by
    refine hP.exprWithin habandon (fun action h s => ⟨?_, fun _ _ _ => trivial⟩) hexpand _ role id
    cases action with
    | fillType => exact h.elim
    | _ => trivial
  refine hP.program habandon (fun kind action h s => ⟨?_, fun _ _ _ => trivial⟩) hexpr hexpand imports
  cases action with
  | fillType => rcases h.cases with h | h | h | h <;> exact h.elim
  | _ => trivial

/-- How often the alias is found to stand for a type in the course of the check. Each expansion that
resolves its target does so once, and no other expansion of it does. -/
def resolutions (id : SymbolId) : Check α → State → ℕ
  | .done _, _ => 0
  | .ask action next, s =>
    action.resolves id + resolutions id (next (action.step s).1) (action.step s).2

lemma resolutions_bind {β : Type} (x : Check α) (f : α → Check β) (s : State) :
    (x >>= f).resolutions id s = x.resolutions id s + (f (x.run s).1).resolutions id (x.run s).2 := by
  induction x generalizing s with
  | done a => exact (zero_add _).symm
  | ask action next ih =>
    exact (congrArg (action.resolves id + ·) (ih (action.step s).1 (action.step s).2)).trans
      (add_assoc _ _ _).symm

lemma resolutions_add_le {x : Check α} (hx : x.Along (fun action s => action.FillsOpen s) s) :
    x.resolutions id s + (x.run s).2.pending id ≤ s.pending id := by
  induction x generalizing s with
  | done => exact (zero_add _).le
  | ask action next ih =>
    refine (add_assoc _ _ _).le.trans ((Nat.add_le_add_left (ih _ hx.2) _).trans ?_)
    exact hx.1.resolves_add_le id

/-- An expansion finds out what its alias stands for if it resolves the target, and then once. -/
lemma resolutions_expandWithin (depth : Nat) (active : List String) (id : SymbolId) (span : Span)
    (cyclic : Cyclic) (s : State) :
    (expandWithin (depth + 1) active id span cyclic).resolutions id s =
      if (s.symbols.get id).ty = none ∧ (s.symbols.get id).aliasTarget.isSome ∧
        (s.symbols.get id).name ∉ active then 1 else 0 := by
  obtain ⟨hopening, hspares⟩ :=
    meets_performing_iff.mp (expandWithin_sparing (depth + 1) active id span cyclic s)
  have hle : (expandWithin (depth + 1) active id span cyclic).resolutions id s +
      ((expandWithin (depth + 1) active id span cyclic).run s).2.pending id ≤ s.pending id :=
    resolutions_add_le hopening
  have hread : (expandWithin (depth + 1) active id span cyclic).resolutions id s =
      resolutions id (toCheck { expand := expandWithin depth }
        (match (s.symbols.get id).ty, (s.symbols.get id).aliasTarget with
          | some _, _ => _ | none, none => _ | none, some _ => _)) s := zero_add _
  cases hty : (s.symbols.get id).ty with
  | some ty =>
    have hknown : s.pending id = 0 := by simp [State.pending, hty]
    rw [if_neg (by simp)]
    omega
  | none =>
    cases htarget : (s.symbols.get id).aliasTarget with
    | none =>
      rw [hread]
      simp only [hty, htarget]
      rfl
    | some target =>
      by_cases hactive : (s.symbols.get id).name ∈ active
      · -- It is being expanded already, so that it is left as it is.
        have hsame := congrArg (fun ty : Option Ty => if ty.isSome then 0 else 1) (hspares.same hactive)
        simp only [State.pending] at hle
        simpa [hactive, hsame] using hle
      · have hpending : s.pending id ≤ 1 := by
          unfold State.pending
          split <;> simp
        -- The type is filled in after the target has been resolved.
        have hfilled : 1 ≤ (expandWithin (depth + 1) active id span cyclic).resolutions id s := by
          have hidle : ¬ active.contains (s.symbols.get id).name := by simpa using hactive
          rw [hread]
          simp only [hty, htarget]
          refine le_of_le_of_eq ?_ (congrArg (fun x => resolutions id (toCheck _ x) s) (if_neg hidle)).symm
          rw [toCheck_bind, resolutions_bind]
          exact Nat.le_add_left_of_le (if_pos rfl).ge
        rw [if_pos ⟨rfl, rfl, hactive⟩]
        omega

end Check

/-- Aliases are expanded to the end, whatever they refer to. With the names in progress kept in a list,
nothing else comes out; the list never has a name twice, only names of aliases are added to it, and it
is restored by each expansion. An alias is found to stand for a type exactly when its target is
resolved, and in a whole check that is once at most. -/
theorem alias_expansion_ends (env : Env) (imports : List Ident) (t : TypeExpr) (s : State)
    (id : SymbolId) (hactive : active.Nodup) :
    (Check.ofRule env (Rule.resolveType t)).Along (fun action _ => action.Proceeds) s ∧
      (Guarded.resolveType t).Meets Guarded.performing ([], s) (fun ty w =>
        w.1 = [] ∧ (ty, w.2) = (Check.ofRule env (Rule.resolveType t)).run s) ∧
      (∀ depth span cyclic, (Guarded.expandWithin depth id span cyclic).Meets Guarded.performing
        (active, s) fun found w =>
          w.1 = active ∧ (found, w.2) = (Check.expandWithin depth active id span cyclic).run s) ∧
      (∀ depth span cyclic, (Check.expandWithin (depth + 1) active id span cyclic).resolutions id s =
        if (s.symbols.get id).ty = none ∧ (s.symbols.get id).aliasTarget.isSome ∧
          (s.symbols.get id).name ∉ active then 1 else 0) ∧
      (Check.program env imports).resolutions id {} ≤ 1 := by
  have hsilent : Rule.Silent True [] (resolveType t) := (resolveType_does t).silent
  refine ⟨ofRule_proceeds (resolveType_does t) s, ?_, ?_, fun depth span cyclic =>
    resolutions_expandWithin depth active id span cyclic s, ?_⟩
  · refine Guarded.Follows.handle _ .nil (fun id span cyclic s => ?_) hsilent s
    refine ⟨.nil, ?_⟩
    rintro _ _ ⟨⟩
    exact Guarded.expandWithin_follows _ .nil id span cyclic s
  · exact fun depth span cyclic => Guarded.expandWithin_follows depth hactive id span cyclic s
  · have hopening := (meets_performing_iff.mp (program_opening env imports {})).1
    refine (Nat.le_add_right _ _).trans ((resolutions_add_le hopening).trans ?_)
    unfold State.pending
    split <;> simp

/-- The aliases of `overlapSample` have their names, and the first is about to be expanded. -/
def overlapState : State :=
  (((Check.program ⟨overlapSample, {}⟩ []).states {}).find? (·.declarations.length == 3)).getD {}

theorem alias_expansion_ends_overlap : ["B", "A"].Nodup ∧
    (overlapState.symbols.get ⟨2⟩).name = "C" ∧
    (∀ span cyclic, (Guarded.expandWithin 3 ⟨2⟩ span cyclic).Meets Guarded.performing
      (["B", "A"], overlapState) fun found w => w.1 = ["B", "A"] ∧
        (found, w.2) = (Check.expandWithin 3 ["B", "A"] ⟨2⟩ span cyclic).run overlapState) ∧
    (Check.expandWithin 3 ["B", "A"] ⟨2⟩ {} []).resolutions ⟨2⟩ overlapState = 1 ∧
    (Check.program ⟨overlapSample, {}⟩ []).resolutions ⟨2⟩ {} = 1 := by
  have hnodup : ["B", "A"].Nodup := by decide
  obtain ⟨-, -, hexpand, hresolves, hle⟩ :=
    alias_expansion_ends ⟨overlapSample, {}⟩ [] (.named {} "C" []) overlapState ⟨2⟩ hnodup
  refine ⟨hnodup, by decide +kernel, hexpand 3, ?_, hle.antisymm (by decide +kernel)⟩
  exact (hresolves 2 {} []).trans (if_pos (by decide +kernel))

end StaticTyping
