import StaticTyping.Proofs.Aliases.Expansion

/-! What checking an expression leaves as it was: no symbol changes but aliases, which learn their types,
and no declaration does. -/

namespace StaticTyping

/-- Symbols that are no aliases stay as they are, and so do declarations. -/
structure State.Settles (s t : State) : Prop where
  size : t.symbols.size = s.symbols.size
  aliasTarget (id : SymbolId) : (t.symbols.get id).aliasTarget = (s.symbols.get id).aliasTarget
  plain {id : SymbolId} : (s.symbols.get id).aliasTarget = none → t.symbols.get id = s.symbols.get id
  declarations : t.declarations = s.declarations

namespace State.Settles

variable {s t u : State}

lemma of_same (hsymbols : t.symbols = s.symbols) (hdeclarations : t.declarations = s.declarations) :
    s.Settles t :=
  ⟨by rw [hsymbols], fun _ => by rw [hsymbols], fun _ => by rw [hsymbols], hdeclarations⟩

protected lemma refl (s : State) : s.Settles s := of_same rfl rfl

lemma trans (hst : s.Settles t) (htu : t.Settles u) : s.Settles u where
  size := htu.size.trans hst.size
  aliasTarget id := (htu.aliasTarget id).trans (hst.aliasTarget id)
  plain {id} hid := (htu.plain ((hst.aliasTarget id).trans hid)).trans (hst.plain hid)
  declarations := htu.declarations.trans hst.declarations

lemma fillType {id : SymbolId} (halias : (s.symbols.get id).aliasTarget ≠ none) (ty : Ty) :
    s.Settles ((Action.fillType id ty).step s).2 where
  size := SymbolTable.size_modify
  aliasTarget := (State.Refines.fillType s id ty).aliasTarget
  plain {other} hother := by
    have hne : other ≠ id := by
      rintro rfl
      exact halias hother
    exact SymbolTable.get_modify_of_ne _ _ hne
  declarations := rfl

end State.Settles

namespace Check

variable {α : Type}

/-- Whatever the state is, the check leaves symbols and declarations as they are, aliases apart. -/
def Settling (x : Check α) : Prop := ∀ s : State, s.Settles (x.run s).2

lemma Settling.closed : Closed @Settling := .of_rel .refl .trans

end Check

lemma Action.Recording.settles {α : Type} {action : Action α} (h : action.Recording True)
    (s : State) : s.Settles (action.step s).2 := by
  by_cases hsilent : action.Silent
  · rw [hsilent.step_snd]
    exact .of_same rfl rfl
  · cases action with
    | diagnosticCount | record | clearNarrowing | hoist => exact .of_same rfl rfl
    | _ => exact absurd h hsilent

namespace Rule

variable {α : Type} {visits : Visits}

lemma expandAlias_settling
    (hexpand : ∀ active id span cyclic, (visits.expand active id span cyclic).Settling)
    (active : List String) (id : SymbolId) (span : Span) (cyclic : Cyclic) :
    ((expandAlias active id span cyclic).toCheck visits).Settling := by
  intro s
  show Ends visits (expandAlias active id span cyclic) s fun _ t => s.Settles t
  refine expandAlias_cases (fun _ _ => .refl s) (fun _ _ => .refl s) (fun _ _ _ _ => .of_same rfl rfl)
    fun target _ htarget _ => ?_
  have hsilent : Silent True ((s.symbols.get id).name :: active)
      (resolveIn ((s.symbols.get id).name :: active) target cyclic) := (resolveIn_does target cyclic).silent
  have hresolve := hsilent.closed Check.Settling.closed (fun _ h _ => h.recording.settles)
    (fun id span cyclic => hexpand _ id span cyclic) s
  refine hresolve.trans (.fillType ?_ _)
  rw [hresolve.aliasTarget, htarget]
  simp

end Rule

namespace Check

lemma expandWithin_settling (depth : Nat) (active : List String) (id : SymbolId) (span : Span)
    (cyclic : Cyclic) : (expandWithin depth active id span cyclic).Settling := by
  induction depth generalizing active id span cyclic with
  | zero => exact fun s => .refl s
  | succ depth ih => exact Rule.expandAlias_settling ih active id span cyclic

lemma expand_settling (active : List String) (id : SymbolId) (span : Span) (cyclic : Cyclic) :
    (expand active id span cyclic).Settling :=
  fun s => expandWithin_settling _ _ _ _ _ s

lemma expr_settling (env : Env) (role : Role) (id : ExprId) : (expr env role id).Settling :=
  Settling.closed.exprWithin .refl (fun _ h => h.settles) (expand_settling []) _ role id

end Check

end StaticTyping
