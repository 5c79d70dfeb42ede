import StaticTyping.Proofs.Stored.State

/-! What an action keeps. A state is sound if each symbol that it refers to is allocated, and each
type that it holds is in normal form and names allocated symbols only. An action that is given such
symbols and types leads from a sound state to a sound state and answers such symbols and types. Types
may hold errors or not, as is chosen. -/

namespace StaticTyping

open SymbolTable List Nat

variable {symbol : Symbol} {s : State} {T : Ty → Prop}

inductive TypeExpr.Full : TypeExpr → Prop
  | named {span : Span} {name : String} {args : List TypeExpr} (h : ∀ t ∈ args, Full t) :
      Full (.named span name args)
  | union {span : Span} {members : List TypeExpr} (hne : members ≠ []) (h : ∀ t ∈ members, Full t) :
      Full (.union span members)
  | tuple {span : Span} {elements : List TypeExpr} (h : ∀ t ∈ elements, Full t) :
      Full (.tuple span elements)
  | fn {span : Span} {params : List TypeExpr} {result : TypeExpr} (hparams : ∀ t ∈ params, Full t)
      (hresult : Full result) : Full (.fn span params result)
  | hole (span : Span) : Full (.hole span)

/-- What may be met: errors, and symbols that are expanded. -/
structure Allowance where
  errors : Prop := True
  expands : SymbolId → Prop := fun _ => True

/-- Where there must be no errors, all aliases may be expanded, and what may be expanded has a type or
is written so that it gets one. -/
def Allowance.Fits (E : Allowance) (id : SymbolId) (symbol : Symbol) : Prop :=
  ¬E.errors → (symbol.kind = .typeAlias → E.expands id) ∧
    (E.expands id → symbol.ty = none → ∃ target, symbol.aliasTarget = some target ∧ target.Full)

/-- A type that may be met where there are `n` symbols. -/
abbrev Ty.Sound (E : Allowance) (n : Nat) : Ty → Prop := Ty.Formed E.errors (·.index < n)

abbrev Substitution.Sound (E : Allowance) (n : Nat) : Substitution → Prop :=
  Substitution.Formed E.errors (·.index < n)

abbrev Member.Sound (E : Allowance) (n : Nat) : Member → Prop :=
  Member.Holds (·.index < n) (Ty.Sound E n)

abbrev Symbol.Sound (E : Allowance) (n : Nat) : Symbol → Prop :=
  Symbol.Holds (·.index < n) (Ty.Sound E n)

abbrev FunctionContext.Sound (E : Allowance) (n : Nat) : FunctionContext → Prop :=
  FunctionContext.Holds (Ty.Sound E n)

/-- A sound state with `n` symbols. Declarations and functions count only where there may be errors, since
expressions do not ask for them. -/
structure State.SoundOf (E : Allowance) (n : Nat) (s : State) : Prop where
  size : s.symbols.size = n
  symbols : ∀ symbol ∈ s.symbols.symbols, symbol.Sound E n
  scopes : s.scopes.Holds (·.index < n) (Ty.Sound E n)
  recorded : ∀ entry ∈ s.types.log, entry.2.Sound E n
  declarations : E.errors → ∀ entry ∈ s.declarations, entry.2.index < n
  contexts : E.errors → ∀ context ∈ s.contexts, context.Sound E n
  fits (id : SymbolId) : id.index < n → E.Fits id (s.symbols.get id)

def State.Sound (s : State) : Prop := s.SoundOf {} s.symbols.size

lemma State.SoundOf.sound {n : Nat} (h : s.SoundOf {} n) : s.Sound := by
  obtain rfl := h.size
  exact h

lemma State.Sound.mono {R : SymbolId → Prop} (h : s.Sound)
    (hR : ∀ id, id.index < s.symbols.size → R id) (hT : ∀ t, Ty.Sound {} s.symbols.size t → T t) :
    s.Holds R T :=
  State.Holds.mono
    ⟨h.symbols, h.scopes, h.declarations trivial, h.contexts trivial, h.recorded⟩ hR hT

variable {E : Allowance} {n m : Nat} {ty : Ty}

lemma Ty.Sound.mono {t : Ty} (h : t.Sound E n) (hnm : n ≤ m) : t.Sound E m :=
  Ty.Formed.mono h fun _ hid => hid.trans_le hnm

lemma Symbol.Sound.mono (h : symbol.Sound E n) (hnm : n ≤ m) : symbol.Sound E m :=
  Symbol.Holds.mono h (fun _ hid => hid.trans_le hnm) fun _ ht => .mono ht hnm

lemma Symbol.Sound.tyOrUnknown (h : symbol.Sound E n) : symbol.tyOrUnknown.Sound E n := .getD h.ty

namespace SymbolTable

variable {table : SymbolTable} {id : SymbolId} {f : Symbol → Symbol}

@[simp] lemma size_modify : (table.modify id f).size = table.size := by
  simp [modify, size]

@[simp] lemma size_alloc (symbol : Symbol) : (table.alloc symbol).2.size = table.size + 1 := by
  simp [alloc, size]

lemma get_mem (h : id.index < table.size) : table.get id ∈ table.symbols := by
  have hget : table.get? id = some table.symbols[id.index] := Array.getElem?_eq_getElem h
  rw [get, hget]
  exact Array.getElem_mem h

lemma get_of_not_lt (h : ¬id.index < table.size) : table.get id = { name := "", kind := .value } := by
  have hnone : table.get? id = none := Array.getElem?_eq_none (Nat.le_of_not_lt h)
  simp [get, hnone]

lemma mem_modify (h : symbol ∈ (table.modify id f).symbols) :
    symbol ∈ table.symbols ∨ ∃ before ∈ table.symbols, symbol = f before := by
  obtain ⟨i, hi, rfl⟩ := Array.mem_iff_getElem.mp h
  have hlt : i < table.symbols.size := by simpa [modify] using hi
  simp only [modify, Array.getElem_modify]
  split
  · exact .inr ⟨_, Array.getElem_mem hlt, rfl⟩
  · exact .inl (Array.getElem_mem hlt)

variable (table) {other : SymbolId}

lemma get_modify_self (f : Symbol → Symbol) (h : id.index < table.size) :
    (table.modify id f).get id = f (table.get id) := by
  have hget : table.get? id = some table.symbols[id.index] := Array.getElem?_eq_getElem h
  have hmodify : (table.modify id f).get? id = some (f table.symbols[id.index]) := by
    unfold get? at hget ⊢
    simp only [modify, Array.getElem?_modify, if_true, hget, Option.map_some]
  simp only [get, hget, hmodify, Option.getD_some]

lemma get_modify_of_ne (f : Symbol → Symbol) (h : other ≠ id) :
    (table.modify id f).get other = table.get other := by
  have hindex : id.index ≠ other.index := fun heq => h (congrArg SymbolId.mk heq).symm
  simp [get, get?, modify, Array.getElem?_modify, hindex]

lemma modify_of_not_lt (f : Symbol → Symbol) (h : ¬id.index < table.size) :
    table.modify id f = table := by
  have hmodify : table.symbols.modify id.index f = table.symbols := by
    apply Array.ext_getElem?
    intro i
    rw [Array.getElem?_modify]
    split
    · rename_i hi
      subst hi
      simp [Array.getElem?_eq_none (Nat.le_of_not_lt h)]
    · rfl
  simp only [modify, hmodify]

lemma get_modify_of_not_lt (f : Symbol → Symbol) (h : ¬id.index < table.size) :
    (table.modify id f).get other = table.get other := by
  rw [table.modify_of_not_lt f h]

lemma get_modify_cases (id other : SymbolId) (f : Symbol → Symbol) :
    (table.modify id f).get other = table.get other ∨
      (table.modify id f).get other = f (table.get other) := by
  by_cases hlt : id.index < table.size
  · by_cases hother : other = id
    · subst hother
      exact .inr (table.get_modify_self f hlt)
    · exact .inl (table.get_modify_of_ne f hother)
  · exact .inl (table.get_modify_of_not_lt f hlt)

end SymbolTable

namespace Action

/-- What an action is given makes sense where there are `n` symbols. Where there must be no errors,
there are only such actions as expressions ask for. -/
def Takes (E : Allowance) (n : Nat) {α : Type} : Action α → Prop
  | .readSymbol id => id.index < n
  | .allocate symbol => E.errors ∧ symbol.Sound E n
  | .setType id ty => E.errors ∧ id.index < n ∧ ty.Sound E n
  | .fillType id ty => id.index < n ∧ ty.Sound E n
  | .setMembers id members => E.errors ∧ id.index < n ∧ ∀ m ∈ members, m.Sound E n
  | .setVariants id variants => E.errors ∧ id.index < n ∧ ∀ variant ∈ variants, variant.index < n
  | .retypeMethod owner _ ty => E.errors ∧ owner.index < n ∧ ty.Sound E n
  | .declareValue _ id | .declareType _ id | .noteDeclaration _ id => id.index < n
  | .narrow _ ty | .noteReturn ty | .record _ ty => ty.Sound E n
  | .enterFunction declared => ∀ t ∈ declared, t.Sound E n
  | .declaredSymbol _ | .leaveFunction | .currentFunction => E.errors
  | _ => True

def Gives (E : Allowance) (n : Nat) {α : Type} : Action α → α → Prop
  | .readSymbol id, symbol => symbol.Sound E n ∧ E.Fits id symbol
  | .allocate _, id => id.index < n
  | .lookupValue _, found | .lookupType _, found | .declareValue _ _, found
  | .declareType _ _, found | .declaredSymbol _, found => ∀ id ∈ found, id.index < n
  | .lookupValueType _, found => ∀ t ∈ found, t.Sound E n
  | .leaveFunction, returns => ∀ t ∈ returns, t.Sound E n
  | .currentFunction, context => ∀ c ∈ context, c.Sound E n
  | _, _ => True

/-- The action neither reports anything nor gives up. -/
def Quiet {α : Type} : Action α → Prop
  | .report _ | .abandon => False
  | _ => True

def count (n : Nat) {α : Type} : Action α → Nat
  | .allocate _ => n + 1
  | _ => n

def indexed {α : Type} : Action α → State → List SymbolId
  | .readSymbol id, _ | .setType id _, _ | .fillType id _, _ | .setMembers id _, _
  | .setVariants id _, _ | .retypeMethod id _ _, _ => [id]
  | .lookupValueType name, s =>
    match s.scopes.tracked? name with
    | some (.declared id) => [id]
    | _ => []
  | _, _ => []

end Action

namespace State.SoundOf

variable {s : State}

lemma modifySymbol (h : s.SoundOf E n) {id : SymbolId} {f : Symbol → Symbol}
    (hf : ∀ symbol, symbol.Sound E n → (f symbol).Sound E n)
    (hfits : ∀ other symbol, E.Fits other symbol → E.Fits other (f symbol)) :
    (s.modifySymbol id f).SoundOf E n := by
  refine { h with size := size_modify.trans h.size, symbols := ?_, fits := ?_ }
  · intro symbol hsymbol
    rcases mem_modify hsymbol with hmem | ⟨before, hbefore, rfl⟩
    · exact h.symbols symbol hmem
    · exact hf before (h.symbols before hbefore)
  · intro other hother
    rcases s.symbols.get_modify_cases id other f with hget | hget
    · exact hget ▸ h.fits other hother
    · exact hget ▸ hfits other _ (h.fits other hother)

lemma allocate (h : s.SoundOf E n) (hE : E.errors) (hsymbol : symbol.Sound E n) :
    State.SoundOf E (n + 1) { s with symbols := (s.symbols.alloc symbol).2 } where
  size := (size_alloc symbol).trans (congrArg (· + 1) h.size)
  symbols made hmade := by
    rcases Array.mem_push.mp hmade with hmem | rfl
    · exact (h.symbols made hmem).mono (le_succ n)
    · exact hsymbol.mono (le_succ n)
  scopes frame hframe := (h.scopes frame hframe).mono (fun _ hid => lt_succ_of_lt hid)
    fun _ ht => ht.mono (le_succ n)
  recorded entry hentry := (h.recorded entry hentry).mono (le_succ n)
  declarations _ entry hentry := lt_succ_of_lt (h.declarations hE entry hentry)
  contexts _ context hcontext :=
    (h.contexts hE context hcontext).mono fun _ ht => ht.mono (le_succ n)
  fits _ _ hno := (hno hE).elim

lemma valueType (h : s.SoundOf E n) {name : String} {found : Option Ty}
    (hfound : s.scopes.valueType s.symbols name = .ok found) : ∀ t ∈ found, t.Sound E n := by
  unfold ScopeStack.valueType at hfound
  split at hfound
  · cases hfound
    exact nofun
  · rename_i ty hty
    cases hfound
    rintro _ ⟨⟩
    exact h.scopes.tracked hty
  · split at hfound
    · rename_i symbol hsymbol
      cases hfound
      rintro _ ⟨⟩
      exact Symbol.Sound.tyOrUnknown (h.symbols symbol (Array.mem_of_getElem? hsymbol))
    · cases hfound

end State.SoundOf

lemma mem_retypeFirst {method : SymbolId} {members : List Member} {m : Member}
    (h : m ∈ retypeFirst method ty members) :
    m ∈ members ∨ ∃ before ∈ members, m = { before with ty } := by
  induction members with
  | nil => simp [retypeFirst] at h
  | cons first rest ih =>
    unfold retypeFirst at h
    split at h
    · rcases mem_cons.mp h with rfl | h
      · exact .inr ⟨first, .head _, rfl⟩
      · exact .inl (.tail _ h)
    · rcases mem_cons.mp h with rfl | h
      · exact .inl (.head _)
      · rcases ih h with h | ⟨before, hbefore, rfl⟩
        · exact .inl (.tail _ h)
        · exact .inr ⟨before, .tail _ hbefore, rfl⟩

lemma noteInFirst_holds {contexts : List FunctionContext} (hty : T ty)
    (h : ∀ c ∈ contexts, c.Holds T) : ∀ c ∈ noteInFirst ty contexts, c.Holds T := by
  cases contexts with
  | nil => exact nofun
  | cons first rest =>
    obtain ⟨hfirst, hrest⟩ := forall_mem_cons.mp h
    refine forall_mem_cons.mpr ⟨{ hfirst with returns := ?_ }, hrest⟩
    intro t ht
    rcases mem_append.mp ht with ht | ht
    · exact hfirst.returns t ht
    · obtain rfl := mem_singleton.mp ht
      exact hty

namespace Action

variable {α : Type} {action : Action α} {s : State}

lemma le_count (action : Action α) (n : Nat) : n ≤ action.count n := by
  cases action with
  | allocate symbol => exact le_succ n
  | _ => exact le_rfl

lemma size_step (action : Action α) (s : State) :
    (action.step s).2.symbols.size = action.count s.symbols.size := by
  cases action with
  | allocate symbol => exact size_alloc symbol
  | setType | fillType | setMembers | setVariants | retypeMethod => exact size_modify
  | lookupValueType name | declareValue name | declareType name =>
    simp only [step, count]
    split <;> rfl
  | _ => rfl

lemma step_sound (h : s.SoundOf E n) (htakes : action.Takes E n) :
    (action.step s).2.SoundOf E (action.count n) := by
  cases action with
  | allocate symbol => exact h.allocate htakes.1 htakes.2
  | setType id ty =>
    refine h.modifySymbol (fun symbol hsymbol => { hsymbol with ty := ?_ }) fun _ _ _ hno =>
      (hno htakes.1).elim
    rintro _ ⟨⟩
    exact htakes.2.2
  | fillType id ty =>
    refine h.modifySymbol (fun symbol hsymbol => { hsymbol with ty := ?_ }) fun _ _ hfits hno =>
      ⟨(hfits hno).1, fun _ => nofun⟩
    rintro _ ⟨⟩
    -- A type that is known already is kept.
    cases hty : symbol.ty with
    | none => exact htakes.2
    | some known => exact hsymbol.ty known hty
  | setMembers id members =>
    exact h.modifySymbol (fun symbol hsymbol => { hsymbol with members := htakes.2.2 })
      fun _ _ _ hno => (hno htakes.1).elim
  | setVariants id variants =>
    exact h.modifySymbol (fun symbol hsymbol => { hsymbol with variants := htakes.2.2 })
      fun _ _ _ hno => (hno htakes.1).elim
  | retypeMethod owner method ty =>
    refine h.modifySymbol (fun symbol hsymbol => { hsymbol with members := fun m hm => ?_ })
      fun _ _ _ hno => (hno htakes.1).elim
    rcases mem_retypeFirst hm with hmem | ⟨before, hbefore, rfl⟩
    · exact hsymbol.members m hmem
    · exact { hsymbol.members before hbefore with ty := htakes.2.2 }
  | lookupValueType name =>
    simp only [step]
    split <;> exact h
  | declareValue name id =>
    simp only [step]
    split
    · rename_i scopes hscopes
      exact { h with scopes := h.scopes.declareValue htakes hscopes }
    · exact h
  | declareType name id =>
    simp only [step]
    split
    · rename_i scopes hscopes
      exact { h with scopes := h.scopes.declareType htakes hscopes }
    · exact h
  | pushScope => exact { h with scopes := h.scopes.push }
  | popScope => exact { h with scopes := h.scopes.pop }
  | narrow name ty => exact { h with scopes := h.scopes.narrow htakes }
  | clearNarrowing name => exact { h with scopes := h.scopes.clearNarrowing }
  | noteDeclaration id symbol =>
    exact { h with
      declarations := fun hE => forall_mem_cons.mpr ⟨htakes, h.declarations hE⟩ }
  | enterFunction declared =>
    exact { h with
      contexts := fun hE => forall_mem_cons.mpr ⟨⟨htakes, nofun⟩, h.contexts hE⟩ }
  | leaveFunction =>
    exact { h with contexts := fun hE c hc => h.contexts hE c (mem_of_mem_tail hc) }
  | noteReturn ty =>
    exact { h with contexts := fun hE => noteInFirst_holds htakes (h.contexts hE) }
  | record id ty => exact { h with recorded := forall_mem_cons.mpr ⟨htakes, h.recorded⟩ }
  | report | hoist => exact { h with }
  | symbolCount | readSymbol | lookupValue | lookupType | declaredSymbol | currentFunction
  | diagnosticCount | abandon => exact h

lemma step_gives (h : s.SoundOf E n) (htakes : action.Takes E n) :
    action.Gives E (action.count n) (action.step s).1 := by
  cases action with
  | readSymbol id =>
    exact ⟨h.symbols _ (get_mem (h.size.symm ▸ htakes)), h.fits id htakes⟩
  | allocate symbol => exact h.size.symm ▸ lt_succ_self n
  | lookupValue name => exact fun id hid => h.scopes.lookupValue hid
  | lookupType name => exact fun id hid => h.scopes.lookupType hid
  | lookupValueType name =>
    simp only [step]
    split
    · rename_i found hfound
      exact h.valueType hfound
    · rintro _ ⟨⟩
      exact .unknown
  | declareValue name id =>
    simp only [step]
    split
    · exact nofun
    · rename_i collision hcollision
      rintro _ ⟨⟩
      exact h.scopes.existingValue hcollision
  | declareType name id =>
    simp only [step]
    split
    · exact nofun
    · rename_i collision hcollision
      rintro _ ⟨⟩
      exact h.scopes.existingType hcollision
  | declaredSymbol id => exact fun symbol hsymbol => h.declarations htakes _ (mem_of_lookup_eq_some hsymbol)
  | leaveFunction =>
    cases hcontexts : s.contexts with
    | nil => simp [step, Gives, hcontexts]
    | cons context rest =>
      have hcontext := h.contexts htakes context (by simp [hcontexts])
      simpa [step, Gives, count, hcontexts] using hcontext.returns
  | currentFunction => exact fun context hcontext => h.contexts htakes _ (mem_of_mem_head? hcontext)
  | _ => trivial

lemma indexed_mem (h : s.SoundOf E n) (htakes : action.Takes E n) :
    ∀ id ∈ action.indexed s, id ∈ s.symbols := by
  obtain rfl := h.size
  intro id hid
  cases action with
  | readSymbol => exact mem_singleton.mp hid ▸ htakes
  | fillType => exact mem_singleton.mp hid ▸ htakes.1
  | setType | setMembers | setVariants | retypeMethod =>
    exact mem_singleton.mp hid ▸ htakes.2.1
  | lookupValueType name =>
    simp only [indexed] at hid
    split at hid
    · rename_i found hfound
      obtain rfl := mem_singleton.mp hid
      exact h.scopes.tracked hfound
    · cases hid
  | _ => cases hid

end Action

end StaticTyping
