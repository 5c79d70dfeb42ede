import StaticTyping.Proofs.Aliases.Declared

/-! Names that keep their meaning. While parts of declarations are registered, scopes are opened for
type parameters, and symbols are added. As long as no type parameter takes a name that matters, such a
name means what it means at the root. -/

namespace StaticTyping

open StaticTyping.Action SymbolTable List Check ScopeStack

variable {name : String} {id : SymbolId} {scopes : ScopeStack} {M' : String → Prop}

/-- In all scopes but the root the names that matter are free, and the root knows them as `look`. -/
def Sees (M : String → Prop) (look : String → Option SymbolId) : List Frame → Prop
  | [] => False
  | [root] => ∀ name, M name → root.types.lookup name = look name
  | frame :: next :: rest => (∀ name, M name → frame.types.lookup name = none) ∧
    Sees M look (next :: rest)

variable {M : String → Prop} {s t : State} {symbol : Symbol}

namespace Sees

variable {look : String → Option SymbolId} {frame other : Frame} {rest frames : List Frame}

lemma findSome (h : Sees M look frames) (hname : M name) :
    frames.findSome? (·.types.lookup name) = look name := by
  induction frames with
  | nil => exact h.elim
  | cons frame rest ih =>
    cases rest with
    | nil => simp [h name hname]
    | cons next rest =>
      rw [findSome?_cons, h.1 name hname]
      exact ih h.2

lemma mono (h : Sees M look frames) (hM : ∀ name, M' name → M name) : Sees M' look frames := by
  induction frames with
  | nil => exact h
  | cons frame rest ih =>
    cases rest with
    | nil => exact fun name hname => h name (hM name hname)
    | cons next rest => exact ⟨fun name hname => h.1 name (hM name hname), ih h.2⟩

lemma inner (h : Sees M look (frame :: rest))
    (hsame : ∀ name, M name → other.types.lookup name = frame.types.lookup name) :
    Sees M look (other :: rest) := by
  cases rest with
  | nil => exact fun name hname => (hsame name hname).trans (h name hname)
  | cons next rest => exact ⟨fun name hname => (hsame name hname).trans (h.1 name hname), h.2⟩

lemma push (h : Sees M look scopes.frames) : Sees M look scopes.push.frames := ⟨fun _ _ => rfl, h⟩

lemma pop (h : Sees M look scopes.frames) : Sees M look scopes.pop.frames := by
  unfold ScopeStack.pop
  unfold frames at h ⊢
  split
  · exact h
  · rename_i frame rest houter
    rw [houter] at h
    exact h.2

end Sees

/-- The second table has the symbols of the first, the same in all that resolving types reads, and
maybe others, none of which is an alias. -/
structure SymbolTable.Grows (a c : SymbolTable) : Prop where
  size : a.size ≤ c.size
  name {id : SymbolId} : id.index < a.size → (c.get id).name = (a.get id).name
  kind {id : SymbolId} : id.index < a.size → (c.get id).kind = (a.get id).kind
  target {id : SymbolId} : id.index < a.size → (c.get id).aliasTarget = (a.get id).aliasTarget
  plain {id : SymbolId} : ¬id.index < a.size →
    (c.get id).kind ≠ .typeAlias ∧ (c.get id).aliasTarget = none

namespace SymbolTable

variable {a c d : SymbolTable}

lemma Grows.trans (hac : a.Grows c) (hcd : c.Grows d) : a.Grows d where
  size := hac.size.trans hcd.size
  name hid := (hcd.name (hid.trans_le hac.size)).trans (hac.name hid)
  kind hid := (hcd.kind (hid.trans_le hac.size)).trans (hac.kind hid)
  target hid := (hcd.target (hid.trans_le hac.size)).trans (hac.target hid)
  plain {id} hid := by
    by_cases hmiddle : id.index < c.size
    · rw [hcd.kind hmiddle, hcd.target hmiddle]
      exact hac.plain hid
    · exact hcd.plain hmiddle

lemma Grows.of_fields (hsize : c.size = a.size) (hname : ∀ id, (c.get id).name = (a.get id).name)
    (hkind : ∀ id, (c.get id).kind = (a.get id).kind)
    (htarget : ∀ id, (c.get id).aliasTarget = (a.get id).aliasTarget) : a.Grows c where
  size := hsize.ge
  name _ := hname _
  kind _ := hkind _
  target _ := htarget _
  plain {id} hid := by
    rw [hkind, htarget, get_of_not_lt hid]
    simp

protected lemma Grows.refl (a : SymbolTable) : a.Grows a :=
  .of_fields rfl (fun _ => rfl) (fun _ => rfl) fun _ => rfl

lemma Grows.alloc (hkind : symbol.kind ≠ .typeAlias)
    (htarget : symbol.aliasTarget = none) : a.Grows (a.alloc symbol).2 where
  size := by simp
  name hid := by rw [get_alloc_of_ne _ _ hid.ne]
  kind hid := by rw [get_alloc_of_ne _ _ hid.ne]
  target hid := by rw [get_alloc_of_ne _ _ hid.ne]
  plain {id} hid := by
    by_cases hnew : id.index = a.size
    · obtain rfl : id = ⟨a.size⟩ := congrArg SymbolId.mk hnew
      rw [get_alloc_new]
      exact ⟨hkind, htarget⟩
    · rw [get_alloc_of_ne _ _ hnew, get_of_not_lt hid]
      simp

end SymbolTable

/-- Since `b`, which is at the root, nothing changed about the names that matter and about aliases. -/
structure Since (M : String → Prop) (b s : State) : Prop where
  sees : Sees M b.scopes.lookupType s.scopes.frames
  grows : b.symbols.Grows s.symbols

namespace Since

variable {b : State}

lemma start (hroot : b.scopes.outer = []) : Since M b b where
  sees := by
    unfold frames
    rw [hroot]
    exact fun name _ => (lookupType_root hroot name).symm
  grows := .refl _

lemma lookup (h : Since M b s) (hname : M name) :
    s.scopes.lookupType name = b.scopes.lookupType name :=
  h.sees.findSome hname

lemma refines (h : Since M b s) (hst : s.Refines t) : Since M b t where
  sees := by
    rw [hst.scopes]
    exact h.sees
  grows := h.grows.trans (.of_fields hst.size hst.name hst.kind hst.aliasTarget)

lemma kind_alias_iff (h : Since M b s) (id : SymbolId) :
    (s.symbols.get id).kind = .typeAlias ↔ (b.symbols.get id).kind = .typeAlias := by
  by_cases hid : id.index < b.symbols.size
  · rw [h.grows.kind hid]
  · rw [get_of_not_lt hid]
    simp [(h.grows.plain hid).1]

lemma aliasAmong (h : Since M b s) {names : List String} (hnames : ∀ name ∈ names, M name)
    (id : SymbolId) : s.AliasAmong names id ↔ b.AliasAmong names id := by
  refine exists_congr fun name => and_congr_right fun hname => and_congr_right fun _ => ?_
  rw [h.lookup (hnames name hname), h.kind_alias_iff]

lemma mono (h : Since M b s) (hM : ∀ name, M' name → M name) : Since M' b s :=
  ⟨h.sees.mono hM, h.grows⟩

end Since

/-- One of the scopes knows the symbol by the name. -/
def State.Binds (s : State) (name : String) (id : SymbolId) : Prop :=
  ∃ frame ∈ s.scopes.frames, frame.types.lookup name = some id

lemma State.binds_of_lookupType (h : s.scopes.lookupType name = some id) : s.Binds name id :=
  exists_of_findSome?_eq_some h

def Action.Names (name : String) (id : SymbolId) {β : Type} : Action β → Prop
  | .declareType other made => other = name ∧ made = id
  | _ => False

/-- A scope comes to know a symbol by a name only where it is declared. -/
lemma State.Binds.of_step {β : Type} {action : Action β} (h : (action.step s).2.Binds name id) :
    s.Binds name id ∨ action.Names name id := by
  have hsame {scopes : ScopeStack} {frame : Frame} (hframe : frame ∈ scopes.frames)
      (hfound : frame.types.lookup name = some id)
      (htypes : scopes.frames.map (·.types) = s.scopes.frames.map (·.types)) : s.Binds name id := by
    obtain ⟨f, hf, heq⟩ := mem_map.mp (htypes ▸ mem_map_of_mem hframe)
    exact ⟨f, hf, heq ▸ hfound⟩
  obtain ⟨frame, hframe, hfound⟩ := h
  cases action with
  | declareValue other made =>
    simp only [step, ScopeStack.declareValue] at hframe
    cases hlookup : s.scopes.inner.values.lookup other <;> rw [hlookup] at hframe <;>
      exact .inl (hsame hframe hfound rfl)
  | declareType other made =>
    simp only [step, ScopeStack.declareType] at hframe
    cases hlookup : s.scopes.inner.types.lookup other with
    | some existing =>
      rw [hlookup] at hframe
      exact .inl ⟨frame, hframe, hfound⟩
    | none =>
      rw [hlookup] at hframe
      rcases mem_cons.mp hframe with rfl | hframe
      · by_cases hname : name = other
        · simp only [hname, lookup_cons_self, Option.some.injEq] at hfound
          exact .inr ⟨hname.symm, hfound⟩
        · simp only [lookup_cons, beq_false_of_ne hname] at hfound
          exact .inl ⟨s.scopes.inner, .head _, hfound⟩
      · exact .inl ⟨frame, .tail _ hframe, hfound⟩
  | pushScope =>
    rcases mem_cons.mp hframe with rfl | hframe
    · cases hfound
    · exact .inl ⟨frame, hframe, hfound⟩
  | popScope =>
    simp only [step, pop] at hframe
    split at hframe
    · exact .inl ⟨frame, hframe, hfound⟩
    · rename_i next rest houter
      exact .inl ⟨frame, mem_cons_of_mem _ (houter ▸ hframe), hfound⟩
  | narrow other ty => exact .inl (hsame hframe hfound rfl)
  | clearNarrowing other =>
    refine .inl (hsame hframe hfound ?_)
    have hkeeps := (s.scopes.keeps_clearNarrowing other).imp fun _ _ h => h.types.symm
    exact (forall₂_eq_eq_eq ▸ forall₂_map_left_iff.mpr (forall₂_map_right_iff.mpr hkeeps)).symm
  | lookupValueType other =>
    simp only [step] at hframe
    split at hframe <;> exact .inl ⟨frame, hframe, hfound⟩
  | _ => exact .inl ⟨frame, hframe, hfound⟩

/-- A change that is none to the names that matter and to the symbols that there were. Other names
that are new are those of type parameters. -/
structure Undisturbed (M : String → Prop) (s t : State) : Prop where
  sees {look : String → Option SymbolId} : Sees M look s.scopes.frames → Sees M look t.scopes.frames
  binds {name : String} {id : SymbolId} : t.Binds name id →
    s.Binds name id ∨ (t.symbols.get id).kind = .typeParam
  grows : s.symbols.Grows t.symbols
  types {id : SymbolId} : id.index < s.symbols.size → (t.symbols.get id).ty = (s.symbols.get id).ty
  diagnostics : t.diagnostics = s.diagnostics

namespace Undisturbed

lemma of_step {β : Type} {action : Action β} (hsymbols : (action.step s).2.symbols = s.symbols)
    (hdiagnostics : (action.step s).2.diagnostics = s.diagnostics)
    (hsees : ∀ {look}, Sees M look s.scopes.frames → Sees M look (action.step s).2.scopes.frames)
    (hnames : ∀ name id, action.Names name id → (s.symbols.get id).kind = .typeParam) :
    Undisturbed M s (action.step s).2 :=
  ⟨hsees, fun h => h.of_step.imp_right fun hid => hsymbols ▸ hnames _ _ hid,
    hsymbols.symm ▸ .refl _, fun _ => by rw [hsymbols], hdiagnostics⟩

lemma modifySymbol (s : State) (id : SymbolId) {f : Symbol → Symbol}
    (hname : ∀ symbol, (f symbol).name = symbol.name) (hkind : ∀ symbol, (f symbol).kind = symbol.kind)
    (htarget : ∀ symbol, (f symbol).aliasTarget = symbol.aliasTarget)
    (hty : ∀ symbol, (f symbol).ty = symbol.ty) : Undisturbed M s (s.modifySymbol id f) where
  sees h := h
  binds h := .inl h
  grows := .of_fields (by simp [State.modifySymbol]) (get_modify_field (·.name) f hname id)
    (get_modify_field (·.kind) f hkind id)
    (get_modify_field (·.aliasTarget) f htarget id)
  types _ := get_modify_field (·.ty) f hty id _
  diagnostics := rfl

lemma allocate (s : State) (hkind : symbol.kind ≠ .typeAlias)
    (htarget : symbol.aliasTarget = none) : Undisturbed M s ((allocate symbol).step s).2 where
  sees h := h
  binds h := .inl h
  grows := .alloc hkind htarget
  types hid := by
    simp only [step]
    rw [get_alloc_of_ne _ _ hid.ne]
  diagnostics := rfl

lemma declareValue (s : State) (name : String) (id : SymbolId) :
    Undisturbed M s ((declareValue name id).step s).2 := by
  refine of_step ?_ ?_ (fun h => ?_) nofun <;> simp only [step, ScopeStack.declareValue] <;>
    cases s.scopes.inner.values.lookup name
  · rfl
  · rfl
  · rfl
  · rfl
  · exact h.inner fun _ _ => rfl
  · exact h

lemma declareType (s : State) (hname : ¬M name) (hkind : (s.symbols.get id).kind = .typeParam) :
    Undisturbed M s ((declareType name id).step s).2 := by
  refine of_step ?_ ?_ (fun h => ?_) (fun _ _ hid => hid.2 ▸ hkind) <;>
    simp only [step, ScopeStack.declareType] <;> cases s.scopes.inner.types.lookup name
  · rfl
  · rfl
  · rfl
  · rfl
  · refine h.inner fun other hother => ?_
    have hne : other ≠ name := fun heq => hname (heq ▸ hother)
    simp [lookup_cons, beq_false_of_ne hne]
  · exact h

lemma pushScope (s : State) : Undisturbed M s (pushScope.step s).2 := of_step rfl rfl .push nofun

lemma popScope (s : State) : Undisturbed M s (popScope.step s).2 := of_step rfl rfl .pop nofun

lemma noteDeclaration (s : State) (id : StmtId) (symbol : SymbolId) :
    Undisturbed M s ((noteDeclaration id symbol).step s).2 := of_step rfl rfl (fun h => h) nofun

end Undisturbed

lemma Registering.of_undisturbed {visits : Visits} {I : State → Prop}
    (hkept : ∀ {s t}, Undisturbed M s t → I s → I t)
    (hreport : ∀ {s finding} (span : Span), finding.code ≠ .aliasCycle → I s →
      I (s.reporting finding span))
    (hresolve : ∀ {s} (t : TypeExpr), I s → Rule.Ends visits (Rule.resolveType t) s fun _ => I) :
    Registering visits M I where
  allocate hkind htarget h := hkept (.allocate _ hkind htarget) h
  declareValue name id h := hkept (.declareValue _ name id) h
  report span hcode h := hreport span hcode h
  declareType hname hkind h := hkept (.declareType _ hname hkind) h
  pushScope h := hkept (.pushScope _) h
  popScope h := hkept (.popScope _) h
  setMembers id _ h :=
    hkept (.modifySymbol _ id (fun _ => rfl) (fun _ => rfl) (fun _ => rfl) fun _ => rfl) h
  setVariants id _ h :=
    hkept (.modifySymbol _ id (fun _ => rfl) (fun _ => rfl) (fun _ => rfl) fun _ => rfl) h
  noteDeclaration id symbol h := hkept (.noteDeclaration _ id symbol) h
  resolve t h := hresolve t h

lemma Rule.registerParts_extends (env : Env) (pairs : List (StmtId × SymbolId)) (s : State) :
    Ends (visits env) (registerParts env.program pairs) s fun _ t =>
      s.scopes.Extends t.scopes := by
  have hvisits := visits_fulfil env fun c hc s => stmt_meets hc s
  have hpopulate : Registers env.program env.program.StmtEnds
      (pairs.map fun entry => (env.program.methodsOf entry.1 : Multiset StmtId)).sum
      (pairs.forM fun entry => populateType env.program entry.1 entry.2) :=
    .forM fun entry _ => populateType_registers entry.1 entry.2
  have hfunctions : Checks env.program env.program.StmtEnds 0
      (env.program.items.forM (registerIfFunction env.program)) :=
    .forM_zero fun id _ => registerIfFunction_checks id
  have hrule : (registerParts env.program pairs).Meets (checking env.program env.program.StmtEnds)
      s.outline fun _ w => s.scopes.Extends w.scopes := by
    refine (hpopulate s.outline).bind fun _ v hv => (hfunctions v).mono fun _ w hw => ?_
    exact ⟨hv.inner.trans hw.inner, hv.outer.trans hw.outer⟩
  obtain ⟨-, _, rfl, hextends⟩ := meets_performing_iff.mp (toCheck_meets hvisits hrule rfl)
  exact hextends

end StaticTyping
