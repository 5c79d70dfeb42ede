import StaticTyping.Proofs.Aliases.Meaning
import StaticTyping.Proofs.Stored.Step

/-! What the expansion of an alias does to the state: it learns types of symbols, and nothing that it
knew before changes. -/

namespace StaticTyping

open SymbolTable State Option Rule StaticTyping.Action

namespace SymbolTable

variable (table : SymbolTable) {id other : SymbolId}

lemma get_alloc_new (symbol : Symbol) : (table.alloc symbol).2.get ⟨table.size⟩ = symbol := by
  simp [get, get?, alloc, size]

lemma get_alloc_of_ne (symbol : Symbol) (h : id.index ≠ table.size) :
    (table.alloc symbol).2.get id = table.get id := by
  have hne : id.index ≠ table.symbols.size := h
  simp [get, get?, alloc, Array.getElem?_push, hne]

lemma get_modify_field {table : SymbolTable} {β : Type} (field : Symbol → β) (f : Symbol → Symbol)
    (hf : ∀ symbol, field (f symbol) = field symbol) (id other : SymbolId) :
    field ((table.modify id f).get other) = field (table.get other) := by
  rcases table.get_modify_cases id other f with hget | hget
  · rw [hget]
  · rw [hget, hf]

end SymbolTable

/-- The second state knows more types of symbols, and is the same in all else about names. -/
structure State.Refines (s t : State) : Prop where
  scopes : t.scopes = s.scopes
  size : t.symbols.size = s.symbols.size
  symbol (id : SymbolId) : t.symbols.get id = { s.symbols.get id with ty := (t.symbols.get id).ty }
  known {id : SymbolId} {ty : Ty} : (s.symbols.get id).ty = some ty → (t.symbols.get id).ty = some ty

variable {id : SymbolId} {s : State}

namespace State.Refines

variable {s t u : State}

protected lemma refl (s : State) : s.Refines s := ⟨rfl, rfl, fun _ => rfl, fun h => h⟩

lemma of_symbols (hsymbols : t.symbols = s.symbols) (hscopes : t.scopes = s.scopes) : s.Refines t :=
  ⟨hscopes, by rw [hsymbols], fun _ => by rw [hsymbols], fun h => by rw [hsymbols, h]⟩

lemma trans (hst : s.Refines t) (htu : t.Refines u) : s.Refines u where
  scopes := htu.scopes.trans hst.scopes
  size := htu.size.trans hst.size
  symbol id := by
    have hfirst := hst.symbol id
    have hsecond := htu.symbol id
    generalize (t.symbols.get id).ty = ty at hfirst
    generalize (u.symbols.get id).ty = ty' at hsecond
    rw [hsecond, hfirst]
  known h := htu.known (hst.known h)

lemma name (h : s.Refines t) (id : SymbolId) :
    (t.symbols.get id).name = (s.symbols.get id).name := by rw [h.symbol id]

lemma kind (h : s.Refines t) (id : SymbolId) :
    (t.symbols.get id).kind = (s.symbols.get id).kind := by rw [h.symbol id]

lemma aliasTarget (h : s.Refines t) (id : SymbolId) :
    (t.symbols.get id).aliasTarget = (s.symbols.get id).aliasTarget := by rw [h.symbol id]

lemma open_of_open (h : s.Refines t) (hopen : (t.symbols.get id).ty = none) :
    (s.symbols.get id).ty = none := by
  cases hty : (s.symbols.get id).ty with
  | none => rfl
  | some ty => rw [h.known hty] at hopen; exact absurd hopen (by simp)

lemma fillType (s : State) (id : SymbolId) (ty : Ty) : s.Refines ((fillType id ty).step s).2 where
  scopes := rfl
  size := by simp [step, modifySymbol]
  symbol other := by
    simp only [step, modifySymbol]
    rcases s.symbols.get_modify_cases id other _ with hget | hget <;> rw [hget]
  known {other known} hknown := by
    simp only [step, modifySymbol]
    rcases s.symbols.get_modify_cases id other _ with hget | hget <;> rw [hget]
    · exact hknown
    · simp [hknown]

lemma step {β : Type} {action : Action β} (h : action.Resolving) (s : State) :
    s.Refines (action.step s).2 := by
  by_cases hsilent : action.Silent
  · rw [hsilent.step_snd]
    exact of_symbols rfl rfl
  · cases action with
    | fillType id ty => exact fillType s id ty
    | _ => exact absurd h hsilent

end State.Refines

lemma State.lt_of_aliasTarget (h : (s.symbols.get id).aliasTarget.isSome) :
    id.index < s.symbols.size := by
  by_contra hlt
  simp [get_of_not_lt hlt] at h

lemma State.fillType_open (halias : (s.symbols.get id).aliasTarget.isSome)
    (hopen : (s.symbols.get id).ty = none) (ty : Ty) :
    (((fillType id ty).step s).2.symbols.get id).ty = some ty := by
  have hlt := lt_of_aliasTarget halias
  simp only [step, modifySymbol, get_modify_self _ _ hlt, hopen, getD_none]

lemma State.fillType_isSome (halias : (s.symbols.get id).aliasTarget.isSome) (ty : Ty) :
    (((fillType id ty).step s).2.symbols.get id).ty.isSome := by
  have hlt := lt_of_aliasTarget halias
  simp only [step, modifySymbol, get_modify_self _ _ hlt, isSome_some]

lemma State.fillType_other (s : State) {other : SymbolId} (h : other ≠ id) (ty : Ty) :
    (((fillType id ty).step s).2.symbols.get other).ty = (s.symbols.get other).ty := by
  simp only [step, modifySymbol, get_modify_of_ne _ _ h]

namespace Check

lemma expandWithin_refines (depth : Nat) (active : List String) (id : SymbolId) (span : Span)
    (cyclic : Cyclic) (s : State) : s.Refines ((expandWithin depth active id span cyclic).run s).2 :=
  Closed.expandWithin (.of_rel .refl .trans) (fun _ h _ s => .step h s) .refl depth active id span cyclic s

lemma expand_refines (id : SymbolId) (span : Span) (cyclic : Cyclic) (s : State) :
    s.Refines ((expand [] id span cyclic).run s).2 :=
  expandWithin_refines _ [] id span cyclic s

end Check

def expandedType (name : String) (resolved : Ty × Cyclic) : Ty :=
  if resolved.2.contains name then .error else resolved.1

section

variable {visits : Visits} {active : List String} {span : Span} {cyclic : Cyclic}
  {Q : Ty × Cyclic → State → Prop}

/-- The ways in which the expansion of an alias may end. -/
lemma Rule.expandAlias_cases (hknown : ∀ ty, (s.symbols.get id).ty = some ty → Q (ty, cyclic) s)
    (hnone : (s.symbols.get id).ty = none → (s.symbols.get id).aliasTarget = none →
      Q (.error, cyclic) s)
    (hcycle : ∀ target, (s.symbols.get id).ty = none → (s.symbols.get id).aliasTarget = some target →
      (s.symbols.get id).name ∈ active →
      Q (.error, cycleThrough active (s.symbols.get id).name ++ cyclic)
        (s.reporting (.aliasCycle (s.symbols.get id).name) span))
    (hfresh : ∀ target, (s.symbols.get id).ty = none → (s.symbols.get id).aliasTarget = some target →
      (s.symbols.get id).name ∉ active →
      Ends visits (resolveIn ((s.symbols.get id).name :: active) target cyclic) s fun r t =>
        Q (expandedType (s.symbols.get id).name r, r.2)
          ((fillType id (expandedType (s.symbols.get id).name r)).step t).2) :
    Ends visits (expandAlias active id span cyclic) s Q := by
  refine .act (.readSymbol id) rfl ?_
  cases hty : (s.symbols.get id).ty with
  | some ty => exact hknown ty hty
  | none =>
    cases htarget : (s.symbols.get id).aliasTarget with
    | none => exact hnone hty htarget
    | some target =>
      by_cases hactive : (s.symbols.get id).name ∈ active
      · dsimp only
        rw [if_pos (by simpa using hactive)]
        exact hcycle target hty htarget hactive
      · dsimp only
        rw [if_neg (by simpa using hactive)]
        exact (hfresh target hty htarget hactive).bind fun r t hr => hr

lemma Rule.expandAlias_ends {target : TypeExpr}
    (htarget : (s.symbols.get id).aliasTarget = some target)
    (hknown : ∀ ty, (s.symbols.get id).ty = some ty → Q (ty, cyclic) s)
    (hcycle : (s.symbols.get id).ty = none → (s.symbols.get id).name ∈ active →
      Q (.error, cycleThrough active (s.symbols.get id).name ++ cyclic)
        (s.reporting (.aliasCycle (s.symbols.get id).name) span))
    (hfresh : (s.symbols.get id).ty = none → (s.symbols.get id).name ∉ active →
      Ends visits (resolveIn ((s.symbols.get id).name :: active) target cyclic) s fun r t =>
        Q (expandedType (s.symbols.get id).name r, r.2)
          ((fillType id (expandedType (s.symbols.get id).name r)).step t).2) :
    Ends visits (expandAlias active id span cyclic) s Q := by
  refine expandAlias_cases hknown (fun _ hnone => ?_) (fun _ hty _ => hcycle hty) fun other hty hother => ?_
  · rw [htarget] at hnone
    cases hnone
  · obtain rfl : target = other := some.inj (htarget.symm.trans hother)
    exact hfresh hty

end

lemma Check.size_le_run {α : Type} (x : Check α) (s : State) :
    s.symbols.size ≤ (x.run s).2.symbols.size := by
  induction x generalizing s with
  | done => exact le_rfl
  | ask action next ih =>
    have hstep : s.symbols.size ≤ (action.step s).2.symbols.size :=
      (action.le_count _).trans (action.size_step s).ge
    exact hstep.trans (ih _ _)

lemma Check.expand_closes (halias : (s.symbols.get id).aliasTarget.isSome) (span : Span)
    (cyclic : Cyclic) : (((expand [] id span cyclic).run s).2.symbols.get id).ty ≠ none := by
  obtain ⟨target, htarget⟩ := isSome_iff_exists.mp halias
  have hends : Rule.Ends { expand := expandWithin s.symbols.size }
      (expandAlias [] id span cyclic) s fun _ t => (t.symbols.get id).ty ≠ none := by
    refine expandAlias_ends htarget (fun ty hty => by simp [hty]) (by simp) fun _ _ => ?_
    have hlt := (lt_of_aliasTarget halias).trans_le
      (size_le_run (toCheck { expand := expandWithin s.symbols.size }
        (resolveIn [(s.symbols.get id).name] target cyclic)) s)
    unfold Rule.Ends
    simp only [step, modifySymbol, get_modify_self _ _ hlt]
    simp
  exact hends

end StaticTyping
