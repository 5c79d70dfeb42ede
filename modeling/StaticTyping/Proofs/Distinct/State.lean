import StaticTyping.Proofs.Aliases.Expansion
import StaticTyping.Proofs.Visited.Reached

/-! How often a diagnostic is foreseen in a state: as often as it is reported, and as often as the
targets of aliases that are still open may lead to it. An alias is expanded once, so that what its
target leads to is foreseen from the time when it is declared and is then paid for.

States are also tidy: no function has two parameters of one name, no record has two members of one
name, and the symbols of functions tell where their parameters are declared. -/

namespace StaticTyping

open StaticTyping.Symbol List StaticTyping.Action State SymbolTable Nat

variable {d : Diagnostic} {symbol : Symbol} {f : Symbol → Symbol} {id : SymbolId}

lemma Symbol.latent_of_ty {ty : Ty} (h : symbol.ty = some ty) :
    symbol.latent d = 0 := by simp [latent, h]

lemma Symbol.latent_of_target (h : symbol.aliasTarget = none) : symbol.latent d = 0 := by
  unfold latent
  rw [h]
  cases symbol.ty <;> rfl

def State.foreseen (d : Diagnostic) (s : State) : ℕ :=
  s.diagnostics.entries.toList.count d + (s.symbols.symbols.toList.map (latent d)).sum

section Modify

lemma sum_map_modify {α : Type} (weight : α → ℕ) (f : α → α) (xs : List α) {i : Nat} {x : α}
    (hx : xs[i]? = some x) :
    ((xs.modify i f).map weight).sum + weight x = (xs.map weight).sum + weight (f x) := by
  induction xs generalizing i with
  | nil => simp at hx
  | cons y ys ih =>
    cases i with
    | zero =>
      obtain rfl : y = x := by simpa using hx
      simp only [modify_zero_cons, map_cons, sum_cons]
      omega
    | succ i =>
      have hrest := ih (by simpa using hx)
      simp only [modify_succ_cons, map_cons, sum_cons]
      omega

lemma State.foreseen_modifySymbol (s : State) (f : Symbol → Symbol)
    (hid : id.index < s.symbols.size) :
    (s.modifySymbol id f).foreseen d + (s.symbols.get id).latent d =
      s.foreseen d + (f (s.symbols.get id)).latent d := by
  have hget : s.symbols.symbols.toList[id.index]? = some (s.symbols.get id) := by
    have hget? : s.symbols.get? id = some s.symbols.symbols[id.index] := Array.getElem?_eq_getElem hid
    rw [Array.getElem?_toList, SymbolTable.get, hget?]
    exact hget?
  have hsum := sum_map_modify (latent d) f _ hget
  simp only [foreseen, modifySymbol, SymbolTable.modify, Array.toList_modify]
  omega

lemma State.foreseen_modifySymbol_le (s : State) (id : SymbolId)
    (hf : ∀ symbol, (f symbol).latent d ≤ symbol.latent d) :
    (s.modifySymbol id f).foreseen d ≤ s.foreseen d := by
  by_cases hid : id.index < s.symbols.size
  · have hsum := s.foreseen_modifySymbol (d := d) f hid
    have hle := hf (s.symbols.get id)
    omega
  · rw [modifySymbol, s.symbols.modify_of_not_lt f hid]

end Modify

namespace Action

lemma foreseen_step {β : Type} (action : Action β) (s : State) :
    (action.step s).2.foreseen d ≤ s.foreseen d + action.price d := by
  cases action with
  | report reported =>
    simp only [step, foreseen, price, Diagnostics.toList_push, count_append,
      count_singleton, beq_iff_eq]
    omega
  | allocate symbol =>
    simp only [step, foreseen, price, alloc, Array.toList_push, map_append,
      sum_append_nat, map_singleton, sum_singleton]
    omega
  | hoist start middle =>
    simp only [step, foreseen, (s.diagnostics.hoist_perm start middle).count_eq]
    exact le_add_right _ _
  | setType id | fillType id => exact s.foreseen_modifySymbol_le id fun symbol => by simp [latent]
  | setMembers id | setVariants id | retypeMethod id =>
    exact s.foreseen_modifySymbol_le id fun symbol => le_rfl
  | lookupValueType | declareValue | declareType =>
    simp only [step]
    split <;> exact le_add_right _ _
  | _ => exact le_add_right _ _

end Action

lemma State.foreseen_fillType {s : State} {target : TypeExpr}
    (hopen : (s.symbols.get id).ty = none) (htarget : (s.symbols.get id).aliasTarget = some target)
    (ty : Ty) :
    ((fillType id ty).step s).2.foreseen d + d.marksIn target.spans = s.foreseen d := by
  have hlt : id.index < s.symbols.size := lt_of_aliasTarget (by simp [htarget])
  have hsum := s.foreseen_modifySymbol (d := d)
    (fun symbol => { symbol with ty := some (symbol.ty.getD ty) }) hlt
  have hbefore : (s.symbols.get id).latent d = d.marksIn target.spans := by
    simp only [latent, hopen, htarget]
  rw [hbefore, latent_of_ty rfl] at hsum
  exact hsum

section Tidy

lemma Symbol.Tidy.of_empty (hparams : symbol.params = []) (hmembers : symbol.members = []) :
    symbol.Tidy := by
  constructor
  · simp [hparams]
  · simp [hmembers]

/-- The symbol was allocated, and if the statement is a function, the parameters of the symbol are
declared there. -/
structure State.StandsFor (p : Program) (s : State) (id : StmtId) (made : SymbolId) : Prop where
  lt : made.index < s.symbols.size
  params : ∀ decl, (p.stmt id).kind = .function decl →
    ((s.symbols.get made).params.map (·.span)).Sublist (decl.params.map (·.span))

structure State.Tidy (p : Program) (s : State) : Prop where
  symbols : ∀ id, (s.symbols.get id).Tidy
  declarations : ∀ entry ∈ s.declarations, s.StandsFor p entry.1 entry.2

def Action.Tidy (p : Program) (s : State) {β : Type} : Action β → Prop
  | .allocate symbol => symbol.Tidy
  | .setMembers _ members => (members.map (·.name)).Nodup
  | .noteDeclaration id made => s.StandsFor p id made
  | _ => True

variable {p : Program} {s t : State}

lemma State.StandsFor.of_params {id : StmtId} {made : SymbolId} (h : s.StandsFor p id made)
    (hsize : s.symbols.size ≤ t.symbols.size)
    (hparams : (t.symbols.get made).params = (s.symbols.get made).params) :
    t.StandsFor p id made where
  lt := h.lt.trans_le hsize
  params decl hkind := by
    rw [hparams]
    exact h.params decl hkind

lemma State.Tidy.of_same (h : s.Tidy p) (hsymbols : t.symbols = s.symbols)
    (hdeclarations : t.declarations = s.declarations) : t.Tidy p where
  symbols id := by
    rw [hsymbols]
    exact h.symbols id
  declarations entry hentry := by
    rw [hdeclarations] at hentry
    exact (h.declarations entry hentry).of_params (by rw [hsymbols]) (by rw [hsymbols])

lemma State.Tidy.modifySymbol (h : s.Tidy p) (id : SymbolId)
    (hf : ∀ symbol, symbol.Tidy → (f symbol).Tidy)
    (hparams : ∀ symbol, (f symbol).params = symbol.params) : (s.modifySymbol id f).Tidy p where
  symbols other := by
    rcases s.symbols.get_modify_cases id other f with hget | hget
    · exact hget ▸ h.symbols other
    · exact hget ▸ hf _ (h.symbols other)
  declarations entry hentry := by
    refine (h.declarations entry hentry).of_params ?_ ?_
    · simp [State.modifySymbol]
    · rcases s.symbols.get_modify_cases id entry.2 f with hget | hget
      · exact congrArg params hget
      · exact (congrArg params hget).trans (hparams _)

lemma State.Tidy.allocate (h : s.Tidy p) (hsymbol : symbol.Tidy) :
    ((allocate symbol).step s).2.Tidy p where
  symbols id := by
    by_cases hid : id.index = s.symbols.size
    · obtain rfl : id = ⟨s.symbols.size⟩ := congrArg SymbolId.mk hid
      exact (s.symbols.get_alloc_new symbol).symm ▸ hsymbol
    · exact (s.symbols.get_alloc_of_ne symbol hid).symm ▸ h.symbols id
  declarations entry hentry := by
    have hentry := h.declarations entry hentry
    refine hentry.of_params ?_ ?_
    · simp [step, alloc, SymbolTable.size]
    · exact congrArg params (s.symbols.get_alloc_of_ne symbol hentry.lt.ne)

lemma map_name_retypeFirst (method : SymbolId) (ty : Ty) (members : List Member) :
    (retypeFirst method ty members).map (·.name) = members.map (·.name) := by
  induction members with
  | nil => rfl
  | cons m rest ih =>
    rw [retypeFirst]
    split
    · rfl
    · rw [map_cons, map_cons, ih]

lemma State.Tidy.step (h : s.Tidy p) {β : Type} {action : Action β} (haction : action.Tidy p s) :
    (action.step s).2.Tidy p := by
  cases action with
  | allocate symbol => exact h.allocate haction
  | setType id ty | fillType id ty | setVariants id variants =>
    exact h.modifySymbol id (fun _ h => ⟨h.params, h.members⟩) fun _ => rfl
  | setMembers id members =>
    exact h.modifySymbol id (fun _ h => ⟨h.params, haction⟩) fun _ => rfl
  | retypeMethod owner method ty =>
    refine h.modifySymbol owner (fun symbol h => ⟨h.params, ?_⟩) fun _ => rfl
    rw [map_name_retypeFirst]
    exact h.members
  | noteDeclaration id made =>
    refine ⟨h.symbols, fun entry hentry => ?_⟩
    rcases mem_cons.mp hentry with rfl | hentry
    · exact ⟨haction.lt, haction.params⟩
    · exact ⟨(h.declarations entry hentry).lt, (h.declarations entry hentry).params⟩
  | lookupValueType | declareValue | declareType =>
    simp only [Action.step]
    split <;> exact h.of_same rfl rfl
  | _ => exact h.of_same rfl rfl

end Tidy

end StaticTyping
