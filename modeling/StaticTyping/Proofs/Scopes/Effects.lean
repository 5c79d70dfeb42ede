import StaticTyping.Proofs.Order.Settling

/-! What an expression may do to a state. It makes no symbol, opens and closes no scope and no function,
and binds no name. Narrowing may end, and an alias that had no type may have learned one; nothing else
that there was is changed, at any point of the check. -/

namespace StaticTyping

open StaticTyping.Action List SymbolTable

section Proper

def State.Proper (s : State) : Prop := ∀ id, (s.symbols.get id).Proper

def Action.MakesProper {β : Type} : Action β → Prop
  | .allocate symbol => symbol.Proper
  | _ => True

variable {α β : Type} {action : Action β} {s : State}

lemma State.Proper.modifySymbol (h : s.Proper) (id : SymbolId) {f : Symbol → Symbol}
    (hf : ∀ symbol, symbol.Proper → (f symbol).Proper) : (s.modifySymbol id f).Proper := by
  intro other
  rcases s.symbols.get_modify_cases id other f with hget | hget
  · exact hget.symm ▸ h other
  · exact hget.symm ▸ hf _ (h other)

lemma State.Proper.step (h : s.Proper) (haction : action.MakesProper) :
    (action.step s).2.Proper := by
  cases action with
  | allocate symbol =>
    intro id
    by_cases hid : id.index = s.symbols.size
    · obtain rfl : id = ⟨s.symbols.size⟩ := congrArg SymbolId.mk hid
      exact (s.symbols.get_alloc_new symbol).symm ▸ haction
    · exact (s.symbols.get_alloc_of_ne symbol hid).symm ▸ h id
  | setType id | fillType id | setMembers id | setVariants id | retypeMethod id =>
    exact h.modifySymbol id fun _ h => ⟨h.target, h.flagged, h.const⟩
  | declareValue | declareType | lookupValueType =>
    simp only [Action.step]
    split <;> exact h
  | _ => exact h

lemma Check.states_proper {x : Check α} (hx : x.Uses MakesProper) (hs : s.Proper) :
    ∀ t ∈ x.states s, t.Proper := by
  induction x generalizing s with
  | done a =>
    intro t ht
    exact mem_singleton.mp ht ▸ hs
  | ask action next ih =>
    intro t ht
    rcases mem_cons.mp ht with rfl | ht
    · exact hs
    · exact ih _ (hx.2 _) (hs.step hx.1) t ht

lemma StmtKind.Performs.makesProper {kind : StmtKind} (h : kind.Performs action) :
    action.MakesProper := by
  cases action with
  | allocate symbol => exact h.cases.resolve_right (Or.rec id (Or.rec id id))
  | _ => trivial

lemma Check.program_proper (env : Env) (imports : List Ident) :
    ∀ s ∈ (program env imports).states {}, s.Proper := by
  have hclosed : Closed fun {_} x => x.Uses MakesProper := ⟨fun _ => trivial, .bind⟩
  have habandon : (Steps.lift abandon).Uses MakesProper := ⟨trivial, fun _ => trivial⟩
  have hexpand (id : SymbolId) (span : Span) (cyclic : Cyclic) :
      (expand [] id span cyclic).Uses MakesProper := by
    refine ⟨trivial, fun _ => hclosed.expandWithin (fun action h _ => ⟨?_, fun _ => trivial⟩) habandon ..⟩
    cases action with
    | allocate => exact h.elim
    | _ => trivial
  have hexpr (role : Role) (id : ExprId) : (expr env role id).Uses MakesProper := by
    refine hclosed.exprWithin habandon (fun action h => ⟨?_, fun _ => trivial⟩) hexpand _ role id
    cases action with
    | allocate => exact h.elim
    | _ => trivial
  refine states_proper (hclosed.program habandon (fun _ _ h => ⟨?_, fun _ => trivial⟩) hexpr hexpand
    imports) fun _ => .plain rfl ⟨nofun, nofun⟩
  exact h.makesProper

end Proper

/-- The symbol is as it was, or its type was missing and is known now. -/
inductive Symbol.Learns (symbol : Symbol) : Symbol → Prop
  | same : Learns symbol symbol
  | typed (ty : Ty) (hopen : symbol.ty = none) : Learns symbol { symbol with ty := some ty }

lemma Symbol.Learns.trans {a b c : Symbol} (hab : a.Learns b) (hbc : b.Learns c) : a.Learns c := by
  cases hab with
  | same => exact hbc
  | typed ty hopen =>
    cases hbc with
    | same => exact .typed ty hopen
    | typed _ hopen' => cases hopen'

lemma Symbol.Learns.eq_of_ty {a b : Symbol} (h : a.Learns b) {ty : Ty} (hty : a.ty = some ty) :
    b = a := by
  cases h with
  | same => rfl
  | typed _ hopen => cases hopen.symm.trans hty

lemma Symbol.Learns.antisymm {a b : Symbol} (hab : a.Learns b) (hba : b.Learns a) : b = a := by
  cases hab with
  | same => rfl
  | typed ty _ => exact (hba.eq_of_ty rfl).symm

/-- What there was in the first state is there in the second one. Some names may be narrowed no longer,
and some symbols may have learned their types. -/
structure State.Endures (s t : State) : Prop where
  size : t.symbols.size = s.symbols.size
  symbols (id : SymbolId) : (s.symbols.get id).Learns (t.symbols.get id)
  scopes : KeepsAll s.scopes.frames t.scopes.frames
  contexts : t.contexts = s.contexts
  declarations : t.declarations = s.declarations

namespace State.Endures

variable {s t u : State}

lemma of_same (hsymbols : t.symbols = s.symbols) (hscopes : KeepsAll s.scopes.frames t.scopes.frames)
    (hcontexts : t.contexts = s.contexts) (hdeclarations : t.declarations = s.declarations) :
    s.Endures t :=
  ⟨by rw [hsymbols], fun _ => hsymbols ▸ .same, hscopes, hcontexts, hdeclarations⟩

protected lemma refl (s : State) : s.Endures s := of_same rfl (.refl _) rfl rfl

lemma trans (hst : s.Endures t) (htu : t.Endures u) : s.Endures u where
  size := htu.size.trans hst.size
  symbols id := (hst.symbols id).trans (htu.symbols id)
  scopes := hst.scopes.trans htu.scopes
  contexts := htu.contexts.trans hst.contexts
  declarations := htu.declarations.trans hst.declarations

lemma fillType (s : State) (id : SymbolId) (ty : Ty) :
    s.Endures ((fillType id ty).step s).2 := by
  refine ⟨size_modify, fun other => ?_, .refl _, rfl, rfl⟩
  simp only [Action.step, State.modifySymbol]
  rcases s.symbols.get_modify_cases id other fun symbol =>
    { symbol with ty := some (symbol.ty.getD ty) } with hget | hget
  · exact hget ▸ .same
  · rw [hget]
    cases hty : (s.symbols.get other).ty with
    | none => exact .typed _ hty
    | some known =>
      have hsame : { s.symbols.get other with ty := some known } = s.symbols.get other := by rw [← hty]
      exact (congrArg (Symbol.Learns _) hsame).mpr .same

lemma step {β : Type} {action : Action β} (h : action.Local) (s : State) :
    s.Endures (action.step s).2 := by
  by_cases hsilent : action.Silent
  · rw [hsilent.step_snd]
    exact of_same rfl (.refl _) rfl rfl
  · cases action with
    | fillType id ty => exact fillType s id ty
    | clearNarrowing name => exact of_same rfl (s.scopes.keeps_clearNarrowing name) rfl rfl
    | diagnosticCount | hoist | record => exact of_same rfl (.refl _) rfl rfl
    | _ => exact absurd h hsilent

end State.Endures

lemma Check.Along.rel_last {α : Type} {R : State → State → Prop} (hrefl : ∀ s, R s s)
    (htrans : ∀ {a b c}, R a b → R b c → R a c) {x : Check α} {s : State}
    (h : x.Along (fun action t => R t (action.step t).2) s) : ∀ t ∈ x.states s, R t (x.run s).2 := by
  induction x generalizing s with
  | done a =>
    intro t ht
    exact mem_singleton.mp ht ▸ hrefl s
  | ask action next ih =>
    intro t ht
    rcases mem_cons.mp ht with rfl | ht
    · exact h.rel hrefl htrans
    · exact ih _ h.2 t ht

/-- At every point of the check of an expression, what there was is still there. Only symbols with an
alias target have changed. -/
lemma Check.expr_endures {env : Env} {id : ExprId} (hends : env.program.ExprEnds id) (role : Role)
    {s t : State} (ht : t ∈ (expr env role id).states s) :
    s.Endures t ∧ ∀ symbol, t.symbols.get symbol ≠ s.symbols.get symbol →
      (s.symbols.get symbol).aliasTarget ≠ none := by
  obtain ⟨hlocal, -⟩ := meets_performing_iff.mp (expr_meets hends role s)
  have halong := hlocal.mono fun action t h => State.Endures.step h t
  have hbefore := (halong.pairwise .refl .trans).1 t ht
  have hafter := halong.rel_last .refl .trans t ht
  refine ⟨hbefore, fun symbol hne htarget => hne ?_⟩
  -- In the end the symbol is what it was, so it has not learned anything on the way.
  have hlast := (expr_settling env role id s).plain htarget
  exact (hbefore.symbols symbol).antisymm (hlast ▸ hafter.symbols symbol)

namespace Check

lemma run_mem_states {α : Type} (x : Check α) (s : State) : (x.run s).2 ∈ x.states s := by
  induction x generalizing s with
  | done a => exact mem_singleton_self s
  | ask action next ih => exact mem_cons_of_mem _ (ih _ _)

/-- Expressions have bounded effects. Wherever in the check of a program an expression is looked at, up
to its last state there are the same symbols, scopes, functions and declared names as before, and
narrowing only ends. A symbol that has changed is an alias whose type was missing. -/
theorem expr_bounded_effects {env : Env} {imports : List Ident} {id : ExprId}
    (hacyclic : env.program.AcyclicExpr id) (role : Role) {s : State}
    (hs : s ∈ (program env imports).states {}) :
    ((expr env role id).run s).2 ∈ (expr env role id).states s ∧
      ∀ t ∈ (expr env role id).states s, s.Endures t ∧
        ∀ symbol, t.symbols.get symbol ≠ s.symbols.get symbol →
          (s.symbols.get symbol).kind = .typeAlias := by
  refine ⟨run_mem_states _ s, fun t ht => ?_⟩
  obtain ⟨hendures, hchanged⟩ := expr_endures hacyclic.ends role ht
  exact ⟨hendures, fun symbol hne => (program_proper env imports s hs symbol).target (hchanged symbol hne)⟩

/-- A statement gives a type a name, and another one takes a number for a value of it. -/
def namedCast : Env where
  program := {
    expressions := #[⟨{}, .literal (.int "1")⟩, ⟨{}, .cast ⟨0⟩ (.named {} "Count" [])⟩]
    statements := #[⟨{}, .typeAlias { name := ⟨"Count", {}⟩, target := .named {} "i32" [] }⟩,
      ⟨{}, .expr ⟨1⟩⟩]
    items := [⟨0⟩, ⟨1⟩] }
  options := {}

def namedState : State :=
  (((program namedCast []).states {}).find? fun s => (s.scopes.lookupType "Count").isSome).getD {}

lemma namedState_mem : namedState ∈ (program namedCast []).states {} := by
  exact getD_find?_mem (by decide +kernel) _

/-- There the cast is what finds the type of the alias. -/
theorem expr_bounded_effects_cast :
    namedState ∈ (program namedCast []).states {} ∧ namedCast.program.AcyclicExpr ⟨1⟩ ∧
      let t := ((expr namedCast (.value none) ⟨1⟩).run namedState).2
      (namedState.symbols.get ⟨0⟩).ty.isNone ∧ (t.symbols.get ⟨0⟩).ty.isSome ∧
        namedState.Endures t ∧ (namedState.symbols.get ⟨0⟩).kind = .typeAlias := by
  have hacyclic : namedCast.program.AcyclicExpr ⟨1⟩ :=
    (Program.acyclic_of_indices (by decide) (by decide) : namedCast.program.Acyclic).expr _
  obtain ⟨hlast, hpassed⟩ := expr_bounded_effects hacyclic (.value none) namedState_mem
  have hbefore : (namedState.symbols.get ⟨0⟩).ty.isNone := by decide +kernel
  have hafter : (((expr namedCast (.value none) ⟨1⟩).run namedState).2.symbols.get ⟨0⟩).ty.isSome := by
    decide +kernel
  obtain ⟨hendures, hchanged⟩ := hpassed _ hlast
  refine ⟨namedState_mem, hacyclic, hbefore, hafter, hendures, hchanged ⟨0⟩ fun hsame => ?_⟩
  rw [hsame, Option.isNone_iff_eq_none.mp hbefore] at hafter
  cases hafter

end Check

end StaticTyping
