import StaticTyping.Check.Program
import StaticTyping.Proofs.Visited.Outline
import StaticTyping.Proofs.Visited.Silent

/-! Aliases are expanded to the end. Each expansion inside others is of an alias whose name is not
among theirs, so there are never more of them than symbols. Expanding changes nothing but the types
of aliases and diagnostics. -/

namespace StaticTyping

open StaticTyping.Action Array

variable {β : Type} {action : Action β} {s : State} {names active : List String} {depth : Nat}

def Action.Resolving {β : Type} : Action β → Prop
  | .fillType _ _ => True
  | action => action.Silent

lemma Action.Resolving.of_silent (h : action.Silent) : action.Resolving := by
  cases action with
  | fillType id ty => trivial
  | _ => exact h

lemma Action.Resolving.outline_eq (h : action.Resolving) (w : Outline) : action.outline w = w := by
  cases action with
  | declareValue | declareType | pushScope | popScope | narrow | clearNarrowing | noteDeclaration
  | enterFunction | leaveFunction | record => exact h.elim
  | _ => rfl

def State.AliasNames (names : List String) (s : State) : Prop :=
  ∀ symbol ∈ s.symbols.symbols, symbol.aliasTarget.isSome → symbol.name ∈ names

lemma State.AliasNames.get (h : s.AliasNames names) (id : SymbolId)
    (halias : (s.symbols.get id).aliasTarget.isSome) : (s.symbols.get id).name ∈ names := by
  unfold SymbolTable.get at halias ⊢
  cases hget : s.symbols.get? id with
  | none => simp [hget] at halias
  | some symbol =>
    simp only [hget, Option.getD_some] at halias ⊢
    exact h symbol (mem_of_getElem? hget) halias

lemma State.AliasNames.step (h : s.AliasNames names) (hresolving : action.Resolving) :
    (action.step s).2.AliasNames names := by
  by_cases hsilent : action.Silent
  · rw [hsilent.step_snd]
    exact h
  · cases action with
    | fillType id ty =>
      intro symbol hsymbol halias
      obtain ⟨i, hi, rfl⟩ := mem_iff_getElem.mp hsymbol
      have hlt : i < s.symbols.symbols.size := by
        simpa [step, State.modifySymbol, SymbolTable.modify] using hi
      have hbefore := h _ (getElem_mem hlt)
      simp only [step, State.modifySymbol, SymbolTable.modify, getElem_modify] at halias ⊢
      by_cases hid : id.index = i <;> simp only [hid, ↓reduceIte] at halias ⊢ <;> exact hbefore halias
    | _ => exact absurd hresolving hsilent

/-- Aliases that are being expanded are distinct aliases, and there is room for all others. -/
structure Expanding (names : List String) (depth : Nat) (active : List String) : Prop where
  nodup : active.Nodup
  subset : active ⊆ names
  room : names.length < depth + active.length

lemma Expanding.depth_pos (h : Expanding names 0 active) : False := by
  -- Distinct names out of a list are no more than the list is long.
  have hle : active.length ≤ names.length := (List.subperm_of_subset h.nodup h.subset).length_le
  have hroom := h.room
  omega

lemma Expanding.cons {name : String} (h : Expanding names (depth + 1) active)
    (hnew : name ∉ active) (hname : name ∈ names) : Expanding names depth (name :: active) where
  nodup := List.nodup_cons.mpr ⟨hnew, h.nodup⟩
  subset := List.cons_subset.mpr ⟨hname, h.subset⟩
  room := by
    have hroom := h.room
    simp only [List.length_cons]
    omega

namespace Rule

def expanding (names : List String) (depth : Nat) : Contract Request Unit where
  requires
    | .act action, _ => action.Resolving
    | .expand active _ _ _, _ => Expanding names depth active
    | .expr _ _, _ | .stmt _, _ => False
  ensures
    | .act (.readSymbol _), _, symbol, _ => symbol.aliasTarget.isSome → symbol.name ∈ names
    | _, _, _, _ => True

variable {names active : List String} {depth : Nat}

lemma Silent.expanding {α : Type} {x : Rule α} (hx : Silent True active x)
    (h : Expanding names depth active) :
    x.Meets (Rule.expanding names depth) () fun _ _ => True := by
  refine Steps.Uses.meets (fun request _ hrequest _ => ?_) hx trivial
  cases request with
  | act action => exact ⟨.of_silent hrequest.1, fun _ _ _ => trivial⟩
  | expand around =>
    obtain rfl : around = active := hrequest
    exact ⟨h, fun _ _ _ => trivial⟩
  | expr | stmt => exact hrequest.elim

lemma expandAlias_meets (h : Expanding names (depth + 1) active) (id : SymbolId) (span : Span)
    (cyclic : Cyclic) :
    (expandAlias active id span cyclic).Meets (expanding names depth) () fun _ _ => True := by
  have hread : (symbol id).Meets (expanding names depth) () fun declared _ =>
      declared.aliasTarget.isSome → declared.name ∈ names :=
    ⟨trivial, fun _ _ hname => hname⟩
  refine hread.bind fun declared _ hname => ?_
  split
  · trivial
  · trivial
  · rename_i target _ htarget
    split
    · exact ⟨trivial, fun _ _ _ => trivial⟩
    · rename_i hnew
      have hcons := h.cons (by simpa using hnew) (hname (by simp [htarget]))
      refine ((resolveIn_does target cyclic).silent.expanding hcons).bind fun found _ _ => ?_
      exact ⟨trivial, fun _ _ _ => trivial⟩

end Rule

/-- There is room for all aliases of a state to be expanded inside each other. -/
lemma State.exists_expanding (s : State) :
    ∃ names, s.AliasNames names ∧ ∀ k, Expanding names (s.symbols.size + 1 + k) [] := by
  refine ⟨s.symbols.symbols.toList.map (·.name), fun symbol hsymbol _ => ?_, fun k => ⟨.nil, nofun, ?_⟩⟩
  · simpa using ⟨symbol, hsymbol, rfl⟩
  · simp only [SymbolTable.size, List.length_map, length_toList, List.length_nil]
    omega

namespace Check

lemma expandWithin_resolves (h : Expanding names depth active) (id : SymbolId)
    (span : Span) (cyclic : Cyclic) (hs : s.AliasNames names) :
    (expandWithin depth active id span cyclic).Meets
      (performing fun action _ => action.Resolving) s fun _ t => t.AliasNames names := by
  induction depth generalizing active id span cyclic s with
  | zero => exact h.depth_pos.elim
  | succ depth ih =>
    have hvisits : Visits.Fulfil { expand := expandWithin depth } (Rule.expanding names depth)
        (fun action _ => action.Resolving) (fun _ s => s.AliasNames names) :=
      { act := fun {_ action _ s} hs hresolving => by
          refine ⟨hresolving, (), hs.step hresolving, ?_⟩
          cases action with
          | readSymbol id => exact hs.get id
          | _ => trivial
        expr := fun _ hfalse => hfalse.elim
        stmt := fun _ hfalse => hfalse.elim
        expand := fun hs hactive => (ih hactive _ _ _ hs).mono fun _ _ ht => ⟨(), ht, trivial⟩ }
    refine (Rule.toCheck_meets hvisits (Rule.expandAlias_meets h id span cyclic) hs).mono ?_
    rintro _ t ⟨_, ht, -⟩
    exact ht

lemma expand_resolves (id : SymbolId) (span : Span) (cyclic : Cyclic) (s : State) :
    (expand [] id span cyclic).Meets (performing fun action _ => action.Resolving) s
      fun _ t => t.outline = s.outline := by
  have hmeets : (expand [] id span cyclic).Meets
      (performing fun action _ => action.Resolving) s fun _ _ => True := by
    obtain ⟨names, hnames, hexpanding⟩ := s.exists_expanding
    -- Expanding fills in types and allocates nothing, so these names last to the end.
    refine ⟨trivial, ?_⟩
    rintro _ _ ⟨⟩
    exact (expandWithin_resolves (hexpanding 0) id span cyclic hnames).mono fun _ _ _ => trivial
  obtain ⟨halong, -⟩ := meets_performing_iff.mp hmeets
  refine meets_performing_iff.mpr ⟨halong, ?_⟩
  refine Along.rel (R := fun s t => t.outline = s.outline) (fun _ => rfl) (fun h h' => h'.trans h) ?_
  exact halong.mono fun action t hresolving => by rw [action.outline_step, hresolving.outline_eq]

end Check

end StaticTyping
