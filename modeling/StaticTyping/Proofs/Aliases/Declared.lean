import StaticTyping.Proofs.Aliases.Registration
import StaticTyping.Proofs.Aliases.Search

/-! What is declared once the types of a program are registered by name: each type declaration has its
symbol, under its name, and there are no other types. -/

namespace StaticTyping

open SymbolTable Rule State Program List StaticTyping.Action StmtKind ScopeStack Diagnostics

variable {u : SymbolId} {pair : StmtId × SymbolId} {s : State} {symbol : Symbol} {id v : SymbolId}
  {pairs : List (StmtId × SymbolId)} {env : Env} {p : Program} {Q : State → Prop}

namespace Program

def typeName? (p : Program) (id : StmtId) : Option String :=
  (p.stmt id).kind.typeSymbol?.map (·.name)

def typeNames (p : Program) : List String := p.items.filterMap p.typeName?

/-- The program declares a type at top level that starts with the symbol. -/
def Declares (p : Program) (symbol : Symbol) : Prop :=
  ∃ id ∈ p.items, (p.stmt id).kind.typeSymbol? = some symbol

/-- The program declares an alias of the name at top level, with that target. -/
def Aliases (p : Program) (name : String) (target : TypeExpr) : Prop :=
  ∃ symbol, p.Declares symbol ∧ symbol.name = name ∧ symbol.aliasTarget = some target

/-- The target of an alias mentions another alias. -/
def AliasRefers (p : Program) (name other : String) : Prop :=
  ∃ target target', p.Aliases name target ∧ p.Aliases other target' ∧ other ∈ target.names ∧
    isBuiltIn other = false

end Program

lemma StmtKind.kind_of_typeSymbol? {kind : StmtKind} (h : kind.typeSymbol? = some symbol) :
    symbol.ty = none ∧ (symbol.kind = .typeAlias ∧ symbol.aliasTarget.isSome ∨
      symbol.aliasTarget = none ∧ (symbol.kind = .structType ∨ symbol.kind = .classType ∨
        symbol.kind = .enumType)) := by
  cases kind with
  | record kind decl =>
    cases h
    cases kind <;> simp [RecordKind.symbolKind]
  | enum decl =>
    cases h
    simp
  | typeAlias decl =>
    cases h
    simp
  | _ => simp [typeSymbol?] at h

lemma ScopeStack.lookupType_root {scopes : ScopeStack} (h : scopes.outer = []) (name : String) :
    scopes.lookupType name = scopes.inner.types.lookup name := by
  simp [lookupType, frames, h]

/-- The statements are type declarations with their symbols, and the state has no other types. -/
structure TypesNamed (p : Program) (pairs : List (StmtId × SymbolId)) (s : State) : Prop where
  symbol {pair : StmtId × SymbolId} : pair ∈ pairs →
    (p.stmt pair.1).kind.typeSymbol? = some (s.symbols.get pair.2)
  bound {pair : StmtId × SymbolId} : pair ∈ pairs → pair.2.index < s.symbols.size
  found {pair : StmtId × SymbolId} : pair ∈ pairs →
    s.scopes.lookupType (s.symbols.get pair.2).name = some pair.2
  only {name : String} {id : SymbolId} : s.scopes.lookupType name = some id →
    ∃ stmt, (stmt, id) ∈ pairs ∧ (s.symbols.get id).name = name
  aliases {id : SymbolId} : (s.symbols.get id).kind = .typeAlias ∨
    (s.symbols.get id).aliasTarget.isSome → ∃ stmt, (stmt, id) ∈ pairs
  root : s.scopes.outer = []
  calm : s.diagnostics.count .aliasCycle = 0

namespace TypesNamed

variable {p : Program} {pairs : List (StmtId × SymbolId)} {s : State}

lemma typeName? (h : TypesNamed p pairs s) (hpair : pair ∈ pairs) :
    p.typeName? pair.1 = some (s.symbols.get pair.2).name := by
  simp [Program.typeName?, h.symbol hpair]

end TypesNamed

def State.naming (s : State) (id : StmtId) (symbol : Symbol) : State := { s with
    symbols := (s.symbols.alloc symbol).2
    scopes := { s.scopes with inner :=
      { s.scopes.inner with types := (symbol.name, ⟨s.symbols.size⟩) :: s.scopes.inner.types } }
    declarations := (id, ⟨s.symbols.size⟩) :: s.declarations }

namespace State

variable {s : State} {id : StmtId} {symbol : Symbol}

lemma get_naming_new : (s.naming id symbol).symbols.get ⟨s.symbols.size⟩ = symbol :=
  get_alloc_new _ _

lemma get_naming_of_ne {other : SymbolId} (h : other.index ≠ s.symbols.size) :
    (s.naming id symbol).symbols.get other = s.symbols.get other :=
  get_alloc_of_ne _ _ h

lemma lookupType_naming (hroot : s.scopes.outer = []) (name : String) :
    (s.naming id symbol).scopes.lookupType name =
      if name = symbol.name then some ⟨s.symbols.size⟩ else s.scopes.lookupType name := by
  have hstill : (s.naming id symbol).scopes.outer = [] := hroot
  rw [lookupType_root hstill, lookupType_root hroot]
  by_cases hname : name = symbol.name
  · simp [naming, hname]
  · simp [naming, lookup_cons, hname, beq_false_of_ne hname]

end State

lemma TypesNamed.naming (h : TypesNamed p pairs s) {id : StmtId}
    (hsymbol : (p.stmt id).kind.typeSymbol? = some symbol)
    (hnew : s.scopes.lookupType symbol.name = none) :
    TypesNamed p (pairs ++ [(id, ⟨s.symbols.size⟩)]) (s.naming id symbol) := by
  have hearlier {pair : StmtId × SymbolId} (hpair : pair ∈ pairs) :
      pair.2.index ≠ s.symbols.size := (h.bound hpair).ne
  refine ⟨?_, ?_, ?_, ?_, ?_, h.root, h.calm⟩
  · intro pair hpair
    rcases mem_append.mp hpair with hpair | hpair
    · rw [get_naming_of_ne (hearlier hpair)]
      exact h.symbol hpair
    · obtain rfl := mem_singleton.mp hpair
      rw [get_naming_new]
      exact hsymbol
  · intro pair hpair
    have hsize : (s.naming id symbol).symbols.size = s.symbols.size + 1 := size_alloc _
    rw [hsize]
    rcases mem_append.mp hpair with hpair | hpair
    · exact Nat.lt_succ_of_lt (h.bound hpair)
    · obtain rfl := mem_singleton.mp hpair
      exact Nat.lt_succ_self _
  · intro pair hpair
    rcases mem_append.mp hpair with hpair | hpair
    · have hne : (s.symbols.get pair.2).name ≠ symbol.name := fun heq => by
        simp [← heq, h.found hpair] at hnew
      rw [get_naming_of_ne (hearlier hpair), lookupType_naming h.root, if_neg hne]
      exact h.found hpair
    · obtain rfl := mem_singleton.mp hpair
      rw [get_naming_new, lookupType_naming h.root, if_pos rfl]
  · intro name other hfound
    rw [lookupType_naming h.root] at hfound
    split at hfound
    · rename_i hname
      obtain rfl := Option.some.inj hfound
      exact ⟨id, mem_append_right _ (.head _), by rw [get_naming_new, hname]⟩
    · obtain ⟨stmt, hpair, hname⟩ := h.only hfound
      refine ⟨stmt, mem_append_left _ hpair, ?_⟩
      rw [get_naming_of_ne (hearlier hpair)]
      exact hname
  · intro other halias
    by_cases hother : other.index = s.symbols.size
    · have heq : other = ⟨s.symbols.size⟩ := congrArg SymbolId.mk hother
      exact ⟨id, heq ▸ mem_append_right _ (.head _)⟩
    · rw [get_naming_of_ne hother] at halias
      obtain ⟨stmt, hpair⟩ := h.aliases halias
      exact ⟨stmt, mem_append_left _ hpair⟩

lemma typesNamed_nil_iff : TypesNamed p [] s ↔ (∀ name, s.scopes.lookupType name = none) ∧
      (∀ id, (s.symbols.get id).kind ≠ .typeAlias ∧ (s.symbols.get id).aliasTarget = none) ∧
      s.scopes.outer = [] ∧ s.diagnostics.count .aliasCycle = 0 := by
  constructor
  · intro h
    refine ⟨fun name => ?_, fun id => ?_, h.root, h.calm⟩
    · by_contra hfound
      obtain ⟨id, hid⟩ := Option.ne_none_iff_exists'.mp hfound
      obtain ⟨stmt, hmem, -⟩ := h.only hid
      exact absurd hmem not_mem_nil
    · by_contra halias
      have hid : (s.symbols.get id).kind = .typeAlias ∨ (s.symbols.get id).aliasTarget.isSome := by
        rw [← Option.ne_none_iff_isSome]
        tauto
      obtain ⟨stmt, hmem⟩ := h.aliases hid
      exact absurd hmem not_mem_nil
  · rintro ⟨htypes, hkinds, hroot, hcalm⟩
    refine ⟨fun h => absurd h not_mem_nil, fun h => absurd h not_mem_nil,
      fun h => absurd h not_mem_nil, fun {name id} hfound => ?_, fun {id} halias => ?_, hroot,
      hcalm⟩
    · simp [htypes name] at hfound
    · simp [hkinds id] at halias

lemma Diagnostics.count_push_of_ne (ds : Diagnostics) {d : Diagnostic} {code : Code}
    (h : d.code ≠ code) : (ds.push d).count code = ds.count code := by
  simp [count, push, h]

lemma typesNamed_empty (p : Program) : TypesNamed p [] {} :=
  typesNamed_nil_iff.mpr ⟨fun _ => rfl, fun _ => ⟨by simp [SymbolTable.get, SymbolTable.get?], by
    simp [SymbolTable.get, SymbolTable.get?]⟩, rfl, rfl⟩

lemma typesNamed_introducing (p : Program) : Introducing (TypesNamed p []) := by
  constructor
  · intro s symbol hkind htarget h
    rw [typesNamed_nil_iff] at h ⊢
    refine ⟨h.1, fun id => ?_, h.2.2⟩
    by_cases hid : id.index = s.symbols.size
    · obtain rfl : id = ⟨s.symbols.size⟩ := congrArg SymbolId.mk hid
      simp only [step, get_alloc_new]
      exact ⟨hkind, htarget⟩
    · simp only [step, get_alloc_of_ne _ _ hid]
      exact h.2.1 id
  · intro s name id h
    rw [typesNamed_nil_iff] at h ⊢
    simp only [step, ScopeStack.declareValue]
    cases s.scopes.inner.values.lookup name <;> exact h
  · intro s finding span hcode h
    rw [typesNamed_nil_iff] at h ⊢
    exact ⟨h.1, h.2.1, h.2.2.1, (count_push_of_ne _ hcode).trans h.2.2.2⟩

namespace Rule

variable {visits : Visits} {p : Program}

lemma registerTypeName_ends {id : StmtId} (hsymbol : (p.stmt id).kind.typeSymbol? = some symbol)
    (hroot : s.scopes.outer = []) (hnew : s.scopes.lookupType symbol.name = none) :
    Ends visits (registerTypeName p id) s fun made t =>
      made = some ⟨s.symbols.size⟩ ∧ t = s.naming id symbol := by
  rw [lookupType_root hroot] at hnew
  unfold registerTypeName
  simp only [hsymbol]
  refine .act (.allocate symbol) rfl ?_
  refine Ends.bind (Q := fun _ t => t = { s.naming id symbol with declarations := s.declarations }) ?_ ?_
  · unfold declareType
    refine .act (.declareType symbol.name _) (a := none)
      (t := { s.naming id symbol with declarations := s.declarations }) ?_ rfl
    simp [step, ScopeStack.declareType, hnew, State.naming, SymbolTable.alloc]
  · rintro _ _ rfl
    exact ⟨rfl, rfl⟩

/-- Every type declaration gets its symbol, in order. What `I` says holds after all of them if it does
after one. -/
lemma registerTypeNames_naming {I : List (StmtId × SymbolId) → State → Prop}
    (hI : ∀ {pairs s id symbol}, (p.stmt id).kind.typeSymbol? = some symbol → I pairs s →
      I (pairs ++ [(id, ⟨s.symbols.size⟩)]) (s.naming id symbol)) (items : List StmtId)
    (h : TypesNamed p pairs s) (hs : I pairs s)
    (hnodup : ((pairs.map (·.1) ++ items).filterMap p.typeName?).Nodup) :
    Ends visits (registerTypeNames p items) s fun more t => TypesNamed p (pairs ++ more) t ∧
      I (pairs ++ more) t ∧ more.map (·.1) = items.filter p.isType := by
  induction items generalizing pairs s with
  | nil => exact .pure ⟨by simpa using h, by simpa using hs, rfl⟩
  | cons id rest ih =>
    cases hsymbol : (p.stmt id).kind.typeSymbol? with
    | none =>
      have hnone : Ends visits (registerTypeName p id) s fun made t => made = none ∧ t = s := by
        unfold registerTypeName
        simp only [hsymbol]
        exact .pure ⟨rfl, rfl⟩
      have hskip : p.typeName? id = none := by simp [Program.typeName?, hsymbol]
      refine hnone.bind ?_
      rintro _ _ ⟨rfl, rfl⟩
      refine (ih h hs (by simpa [filterMap_append, hskip] using hnodup)).bind fun more t hmore => ?_
      refine .pure ⟨hmore.1, hmore.2.1, ?_⟩
      simpa [isType, hsymbol] using hmore.2.2
    | some symbol =>
      have hname : p.typeName? id = some symbol.name := by simp [Program.typeName?, hsymbol]
      have hnew : s.scopes.lookupType symbol.name = none := by
        by_contra hfound
        obtain ⟨other, hother⟩ := Option.ne_none_iff_exists'.mp hfound
        obtain ⟨stmt, hpair, hsame⟩ := h.only hother
        rw [filterMap_append, filterMap_cons_some hname] at hnodup
        refine (nodup_append.mp hnodup).2.2 symbol.name ?_ symbol.name (.head _) rfl
        refine mem_filterMap.mpr ⟨stmt, mem_map.mpr ⟨_, hpair, rfl⟩, ?_⟩
        rw [h.typeName? hpair, hsame]
      refine (registerTypeName_ends hsymbol h.root hnew).bind ?_
      rintro _ _ ⟨rfl, rfl⟩
      refine (ih (h.naming hsymbol hnew) (hI hsymbol hs) (by simpa using hnodup)).bind
        fun more t hmore => ?_
      refine .pure ⟨by simpa using hmore.1, by simpa using hmore.2.1, ?_⟩
      simpa [isType, hsymbol] using hmore.2.2

def registerParts (p : Program) (pairs : List (StmtId × SymbolId)) : Rule Unit := do
  pairs.forM fun pair => populateType p pair.1 pair.2
  p.items.forM (registerIfFunction p)

end Rule

/-- All types that the program declares at top level have their names, in order. -/
structure AllNamed (p : Program) (pairs : List (StmtId × SymbolId)) (s : State) : Prop
    extends TypesNamed p pairs s where
  items : pairs.map (·.1) = p.items.filter p.isType

namespace AllNamed

variable {p : Program} {pairs : List (StmtId × SymbolId)} {b : State}

lemma mem_items (h : AllNamed p pairs b) (hpair : pair ∈ pairs) : pair.1 ∈ p.items := by
  have hmem : pair.1 ∈ pairs.map (·.1) := mem_map_of_mem hpair
  rw [h.items] at hmem
  exact mem_of_mem_filter hmem

lemma declares (h : AllNamed p pairs b) (hpair : pair ∈ pairs) : p.Declares (b.symbols.get pair.2) :=
  ⟨pair.1, h.mem_items hpair, h.symbol hpair⟩

variable (h : AllNamed p pairs b) {other : String} {target : TypeExpr}

include h

lemma exists_pair (hsymbol : p.Declares symbol) :
    ∃ pair ∈ pairs, b.symbols.get pair.2 = symbol := by
  obtain ⟨id, hid, hsymbol⟩ := hsymbol
  have hmem : id ∈ pairs.map (·.1) := by
    rw [h.items]
    exact mem_filter.mpr ⟨hid, by simp [isType, hsymbol]⟩
  obtain ⟨pair, hpair, rfl⟩ := mem_map.mp hmem
  exact ⟨pair, hpair, Option.some.inj ((h.symbol hpair).symm.trans hsymbol)⟩

lemma typeNames_eq : p.typeNames = pairs.map fun pair => (b.symbols.get pair.2).name := by
  have hfilter : p.typeNames = (p.items.filter p.isType).filterMap p.typeName? := by
    rw [filterMap_filter]
    refine filterMap_congr fun id _ => ?_
    cases hsymbol : (p.stmt id).kind.typeSymbol? with
    | none => simp [Program.typeName?, isType, hsymbol]
    | some symbol => simp [isType, hsymbol]
  rw [hfilter, ← h.items, filterMap_map]
  exact filterMap_eq_map_iff_forall_eq_some.mpr fun pair hpair => h.typeName? hpair

lemma aliases_of_target (htarget : (b.symbols.get id).aliasTarget = some target) :
    p.Aliases (b.symbols.get id).name target := by
  have halias : (b.symbols.get id).aliasTarget.isSome := by simp [htarget]
  obtain ⟨stmt, hpair⟩ := h.aliases (.inr halias)
  exact ⟨_, h.declares hpair, rfl, htarget⟩

lemma lookup_alias (halias : (b.symbols.get id).aliasTarget.isSome) :
    b.scopes.lookupType (b.symbols.get id).name = some id := by
  obtain ⟨stmt, hpair⟩ := h.aliases (.inr halias)
  exact h.found hpair

lemma exists_alias {name : String}
    (halias : p.Aliases name target) : ∃ id, b.scopes.lookupType name = some id ∧
      (b.symbols.get id).name = name ∧ (b.symbols.get id).aliasTarget = some target := by
  obtain ⟨symbol, hsymbol, rfl, htarget⟩ := halias
  obtain ⟨pair, hpair, rfl⟩ := h.exists_pair hsymbol
  exact ⟨pair.2, h.found hpair, rfl, htarget⟩

lemma kind_alias_iff (id : SymbolId) :
    (b.symbols.get id).kind = .typeAlias ↔ (b.symbols.get id).aliasTarget.isSome := by
  constructor
  · intro hkind
    obtain ⟨stmt, hpair⟩ := h.aliases (.inl hkind)
    rcases (kind_of_typeSymbol? (h.symbol hpair)).2 with ⟨-, htarget⟩ | ⟨-, hother⟩
    · exact htarget
    · simp [hkind] at hother
  · intro htarget
    obtain ⟨stmt, hpair⟩ := h.aliases (.inr htarget)
    rcases (kind_of_typeSymbol? (h.symbol hpair)).2 with ⟨hkind, -⟩ | ⟨hnone, -⟩
    · exact hkind
    · simp [hnone] at htarget

lemma properAliases : b.ProperAliases where
  target hkind := (h.kind_alias_iff _).mp hkind
  distinct {u v} hu hv hname := by
    have hlookup := h.lookup_alias hu
    rw [hname, h.lookup_alias hv] at hlookup
    exact (Option.some.inj hlookup).symm

lemma open_alias (halias : (b.symbols.get id).aliasTarget.isSome) : b.Open id := by
  obtain ⟨stmt, hpair⟩ := h.aliases (.inr halias)
  exact (kind_of_typeSymbol? (h.symbol hpair)).1

lemma isSome_of_typeAlias (hpair : pair ∈ pairs) {decl : AliasDecl}
    (hstmt : (p.stmt pair.1).kind = .typeAlias decl) : (b.symbols.get pair.2).aliasTarget.isSome := by
  have hsymbol := h.symbol hpair
  rw [hstmt] at hsymbol
  rw [← Option.some.inj hsymbol]
  rfl

lemma aliasRefers_of_refers (huv : b.Refers u v) :
    p.AliasRefers (b.symbols.get u).name (b.symbols.get v).name := by
  obtain ⟨target, htarget, name, hname, hbuiltIn, hlookup, hkind⟩ := huv
  obtain ⟨target', htarget'⟩ := Option.isSome_iff_exists.mp ((h.kind_alias_iff v).mp hkind)
  obtain ⟨_, -, rfl⟩ := h.only hlookup
  exact ⟨target, target', h.aliases_of_target htarget, h.aliases_of_target htarget', hname, hbuiltIn⟩

lemma refers_of_aliasRefers
    (hu : (b.symbols.get u).aliasTarget.isSome) (hrefers : p.AliasRefers (b.symbols.get u).name other) :
    ∃ v, b.Refers u v ∧ (b.symbols.get v).name = other := by
  obtain ⟨target, target', halias, hother, hname, hbuiltIn⟩ := hrefers
  obtain ⟨u', hu', -, htarget⟩ := h.exists_alias halias
  obtain rfl : u' = u := Option.some.inj (hu'.symm.trans (h.lookup_alias hu))
  obtain ⟨v, hv, rfl, htarget'⟩ := h.exists_alias hother
  have hkind := (h.kind_alias_iff v).mpr (by simp [htarget'])
  exact ⟨v, ⟨target, htarget, _, hname, hbuiltIn, hv, hkind⟩, rfl⟩

lemma transGen_names (huv : Relation.TransGen b.Refers u v) :
    Relation.TransGen p.AliasRefers (b.symbols.get u).name (b.symbols.get v).name :=
  huv.lift (fun id => (b.symbols.get id).name) fun _ _ => h.aliasRefers_of_refers

lemma exists_transGen (hu : (b.symbols.get u).aliasTarget.isSome)
    (hpath : Relation.TransGen p.AliasRefers (b.symbols.get u).name other) :
    ∃ v, Relation.TransGen b.Refers u v ∧ (b.symbols.get v).name = other := by
  induction hpath with
  | single hrefers =>
    obtain ⟨v, huv, hname⟩ := h.refers_of_aliasRefers hu hrefers
    exact ⟨v, .single huv, hname⟩
  | tail _ hrefers ih =>
    obtain ⟨v, huv, rfl⟩ := ih
    obtain ⟨_, hlast⟩ := Relation.TransGen.tail'_iff.mp huv
    obtain ⟨w, hvw, hname⟩ := h.refers_of_aliasRefers (h.properAliases.isSome_right hlast.2) hrefers
    exact ⟨w, huv.tail hvw, hname⟩

end AllNamed

def State.AliasHas (s : State) (name : String) (ty : Ty) : Prop :=
  ∃ id, s.scopes.lookupType name = some id ∧ (s.symbols.get id).ty = some ty

namespace Check

def visits (env : Env) : Visits := { expr := expr env, stmt := stmt env, expand }

/-- The first part of the check of a program: imports, and all declarations at top level. -/
def registration (env : Env) (imports : List Ident) : Check Unit := toCheck (visits env) do
    imports.forM declareImport
    registerDeclarations env.program env.program.items

lemma program_eq_registration (env : Env) (imports : List Ident) :
    program env imports = registration env imports >>= fun _ =>
      toCheck (visits env) (env.program.items.forM visitStmt) := by
  unfold program registration Rule.program
  simp only [toCheck_bind, bind_assoc]
  rfl

def registered (env : Env) (imports : List Ident) : State := ((registration env imports).run {}).2

lemma registered_of_parts {imports : List Ident}
    (hnodup : env.program.typeNames.Nodup) (h : ∀ pairs s, AllNamed env.program pairs s →
      Ends (visits env) (registerParts env.program pairs) s fun _ => Q) :
    Q (registered env imports) := by
  have himports : Keeps (visits env) (TypesNamed env.program []) (imports.forM declareImport) :=
    .forM_zero fun binding _ => introduce_keeps (typesNamed_introducing _) (by simp) rfl
  have hends : Ends (visits env) (do
      imports.forM declareImport
      registerDeclarations env.program env.program.items) {} fun _ => Q := by
    refine (himports.ends (typesNamed_empty _)).bind fun _ s hs => ?_
    refine (registerTypeNames_naming (I := fun _ _ => True) (fun _ _ => trivial) env.program.items hs
      trivial hnodup).bind fun pairs t ht => ?_
    exact h pairs t ⟨ht.1, ht.2.2⟩
  exact hends

end Check

lemma Rule.populateType_alias {b : State} (hb : AllNamed env.program pairs b)
    (hpair : pair ∈ pairs) (halias : (b.symbols.get pair.2).aliasTarget.isSome)
    (h : ∀ span, Q ((Check.expand [] pair.2 span []).run s).2) :
    Ends (Check.visits env) (populateType env.program pair.1 pair.2) s fun _ => Q := by
  have hsymbol := hb.symbol hpair
  unfold populateType
  cases hstmt : (env.program.stmt pair.1).kind with
  | typeAlias decl =>
    exact .act (.readSymbol pair.2) rfl (.bind (.expand (Q := fun _ => Q) (h _)) fun _ _ ht => .pure ht)
  | record kind decl | enum decl =>
    rw [hstmt] at hsymbol
    rw [← Option.some.inj hsymbol] at halias
    cases halias
  | _ => simp [hstmt, typeSymbol?] at hsymbol

end StaticTyping
