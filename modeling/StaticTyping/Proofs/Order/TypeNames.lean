import StaticTyping.Proofs.Order.Pairs
import StaticTyping.Proofs.Stored.Run

/-! The state in which the types of a program have their names and nothing else is registered. It is the
same for all orders of the items, up to which symbol a type has. -/

namespace StaticTyping

open Check List Option Mirror

/-- A declaration of a struct, a class, an enum or a function. -/
def StmtKind.isDeclaration : StmtKind → Bool
  | .record _ _ | .enum _ | .function _ => true
  | _ => false

lemma StmtKind.aliasTarget_of_isDeclaration {kind : StmtKind} {symbol : Symbol}
    (h : kind.isDeclaration) (hsymbol : kind.typeSymbol? = some symbol) :
    symbol.aliasTarget = none := by
  cases kind with
  | record | enum =>
    obtain rfl := some.inj hsymbol
    rfl
  | function => simp [typeSymbol?] at hsymbol
  | _ => simp [isDeclaration] at h

lemma StmtKind.typeSymbol?_mirrors_self {kind : StmtKind} {symbol : Symbol} {r : Region}
    {π : SymbolPairs} {E : TypeExpr → TypeExpr → Prop} {full : Prop}
    (hsymbol : kind.typeSymbol? = some symbol) (hplain : symbol.aliasTarget = none) :
    symbol.Mirrors (r.mirror π) E full symbol := by
  have hsame : symbol.Mirrors (r.mirror π) E True symbol := by
    cases kind with
    | record | enum =>
      obtain rfl := some.inj hsymbol
      exact newSymbol_mirrors (forall₂_same.mpr fun _ _ => rfl) .nil .none .none
    | typeAlias =>
      obtain rfl := some.inj hsymbol
      simp at hplain
    | _ => simp [typeSymbol?] at hsymbol
  exact { hsame with
    members := fun _ => hsame.members trivial, variants := fun _ => hsame.variants trivial }

lemma lookup_eq_some_of_mem {α β : Type} [BEq α] [LawfulBEq α] {l : List (α × β)} {a : α} {b : β}
    (hnodup : (l.map (·.1)).Nodup) (h : (a, b) ∈ l) : l.lookup a = some b := by
  induction l with
  | nil => cases h
  | cons entry rest ih =>
    obtain ⟨hnew, hrest⟩ := nodup_cons.mp hnodup
    rcases mem_cons.mp h with rfl | h
    · simp
    · have hne : a ≠ entry.1 := by
        rintro rfl
        exact hnew (mem_map.mpr ⟨_, h, rfl⟩)
      rw [lookup_cons, beq_false_of_ne hne]
      exact ih hrest h

/-- There is nothing but types and their names. -/
structure OnlyTypes (pairs : List (StmtId × SymbolId)) (s : State) : Prop where
  values : s.scopes.inner.values = []
  narrowed : s.scopes.inner.narrowed = []
  contexts : s.contexts = []
  diagnostics : s.diagnostics.entries.toList = []
  declarations : s.declarations = pairs.reverse

lemma OnlyTypes.naming {pairs : List (StmtId × SymbolId)} {s : State} (h : OnlyTypes pairs s)
    (id : StmtId) (symbol : Symbol) :
    OnlyTypes (pairs ++ [(id, ⟨s.symbols.size⟩)]) (s.naming id symbol) where
  __ := h
  declarations := by simp [State.naming, h.declarations]

/-- The types of the items have their symbols and names, and nothing else is registered or put out. -/
structure TypesRegistered (p : Program) (s : State) : Prop where
  plain : s.Plain
  symbol {x : StmtId} {i : SymbolId} : s.declarations.lookup x = some i →
    (p.stmt x).kind.typeSymbol? = some (s.symbols.get i)
  declared {x : StmtId} : (s.declarations.lookup x).isSome ↔ x ∈ p.items ∧ p.isType x
  unique {x y : StmtId} {i : SymbolId} : s.declarations.lookup x = some i →
    s.declarations.lookup y = some i → x = y
  names {name : String} {i : SymbolId} : s.scopes.inner.types.lookup name = some i ↔
    ∃ x, s.declarations.lookup x = some i ∧ p.typeName? x = some name
  values : s.scopes.inner.values = []
  diagnostics : s.diagnostics.entries.toList = []

/-- The items are declarations of types and functions, each of them once, and types have different
names. -/
structure Program.DistinctTypes (p : Program) : Prop where
  nodup : p.items.Nodup
  declarations {x : StmtId} : x ∈ p.items → (p.stmt x).kind.isDeclaration = true
  typeNames : p.typeNames.Nodup

lemma TypesRegistered.of_named {p : Program} (hp : p.DistinctTypes)
    {pairs : List (StmtId × SymbolId)} {s : State} (h : AllNamed p pairs s) (honly : OnlyTypes pairs s)
    (hsound : s.Sound) (hcoherent : s.Coherent) : TypesRegistered p s := by
  have hkeys : (pairs.map (·.1)).Nodup := h.items ▸ hp.nodup.filter _
  have hlookup {x : StmtId} {i : SymbolId} : s.declarations.lookup x = some i ↔ (x, i) ∈ pairs := by
    rw [honly.declarations]
    constructor
    · exact fun hx => mem_reverse.mp (mem_of_lookup_eq_some hx)
    · intro hx
      refine lookup_eq_some_of_mem ?_ (mem_reverse.mpr hx)
      rwa [map_reverse, nodup_reverse]
  have hpairs : (pairs.map fun pair => (s.symbols.get pair.2).name).Nodup :=
    h.typeNames_eq ▸ hp.typeNames
  have htypes (name : String) : s.scopes.inner.types.lookup name = s.scopes.lookupType name :=
    (ScopeStack.lookupType_root h.root name).symm
  refine ⟨⟨hsound, hcoherent, fun i => ?_, h.root, fun name => by simp [honly.narrowed],
    honly.contexts⟩, fun hx => h.symbol (hlookup.mp hx), ?_, fun {x y i} hx hy => ?_,
    fun {name i} => ?_, honly.values, honly.diagnostics⟩
  · by_contra hne
    obtain ⟨x, hx⟩ := h.aliases (.inr (isSome_iff_ne_none.mpr hne))
    exact hne (StmtKind.aliasTarget_of_isDeclaration (hp.declarations (h.mem_items hx)) (h.symbol hx))
  · intro x
    rw [isSome_iff_exists]
    have hmem : x ∈ pairs.map (·.1) ↔ x ∈ p.items ∧ p.isType x := by
      rw [h.items, mem_filter]
    refine .trans ⟨?_, ?_⟩ hmem
    · rintro ⟨i, hi⟩
      exact mem_map_of_mem (hlookup.mp hi)
    · intro hx
      obtain ⟨⟨_, i⟩, hpair, rfl⟩ := mem_map.mp hx
      exact ⟨i, hlookup.mpr hpair⟩
  · have hsame := inj_on_of_nodup_map hpairs (hlookup.mp hx) (hlookup.mp hy) rfl
    exact congrArg Prod.fst hsame
  · rw [htypes]
    constructor
    · intro hfound
      obtain ⟨x, hx, rfl⟩ := h.only hfound
      exact ⟨x, hlookup.mpr hx, h.typeName? hx⟩
    · rintro ⟨x, hx, hname⟩
      have hpair := hlookup.mp hx
      have hsame := (h.typeName? hpair).symm.trans hname
      rw [← some.inj hsame]
      exact h.found hpair

namespace TypesRegistered

variable {p : Program} {s t : State} {x : StmtId} {i : SymbolId}

lemma fixes (h : TypesRegistered p s) (hx : s.declarations.lookup x = some i) : s.symbols.Fixes i :=
  h.plain.coherent.noted hx

def pairs (hs : TypesRegistered p s) (ht : TypesRegistered p t) : SymbolPairs where
  holds i j := ∃ x, s.declarations.lookup x = some i ∧ t.declarations.lookup x = some j
  unique := by
    constructor
    · rintro i j k ⟨x, hx, hx'⟩ ⟨y, hy, hy'⟩
      obtain rfl := ht.unique hx' hy'
      exact Option.some.inj (hx.symm.trans hy)
    · rintro i j k ⟨x, hx, hx'⟩ ⟨y, hy, hy'⟩
      obtain rfl := hs.unique hx hy
      exact Option.some.inj (hx'.symm.trans hy')

lemma exists_other (hs : TypesRegistered p s) (ht : TypesRegistered p t)
    (hx : s.declarations.lookup x = some i) : ∃ j, t.declarations.lookup x = some j :=
  isSome_iff_exists.mp (ht.declared.mpr (hs.declared.mp (isSome_iff_exists.mpr ⟨i, hx⟩)))

lemma lookup_rel (hs : TypesRegistered p s) (ht : TypesRegistered p t) (x : StmtId) :
    Rel (hs.pairs ht).holds (s.declarations.lookup x) (t.declarations.lookup x) := by
  cases hx : s.declarations.lookup x with
  | none =>
    cases hx' : t.declarations.lookup x with
    | none => exact .none
    | some j =>
      obtain ⟨i, hi⟩ := ht.exists_other hs hx'
      rw [hi] at hx
      cases hx
  | some i =>
    obtain ⟨j, hj⟩ := hs.exists_other ht hx
    rw [hj]
    exact .some ⟨x, hx, hj⟩

/-- Once the types have their names, it makes no difference in which order they got them. -/
lemma matches_pairs (hs : TypesRegistered p s) (ht : TypesRegistered p t) (r : Region) :
    r.Matches (hs.pairs ht) s t where
  within := by
    rintro i j ⟨x, hx, hx'⟩
    exact ⟨(hs.fixes hx).1, (ht.fixes hx').1⟩
  plain _ := hs.plain.plain _
  symbols := by
    rintro i j ⟨x, hx, hx'⟩
    rw [← some.inj ((hs.symbol hx).symm.trans (ht.symbol hx'))]
    exact StmtKind.typeSymbol?_mirrors_self (hs.symbol hx) (hs.plain.plain i)
  root := ⟨hs.plain.root, ht.plain.root⟩
  values _ := by
    rw [hs.values, ht.values]
    exact .none
  calm name := ⟨hs.plain.calm name, ht.plain.calm name⟩
  types name := by
    cases hname : s.scopes.inner.types.lookup name with
    | none =>
      have hother : t.scopes.inner.types.lookup name = none := by
        refine eq_none_iff_forall_ne_some.mpr fun j hj => ?_
        obtain ⟨x, hx, htypeName⟩ := ht.names.mp hj
        obtain ⟨i, hi⟩ := ht.exists_other hs hx
        rw [hs.names.mpr ⟨x, hi, htypeName⟩] at hname
        cases hname
      rw [hother]
      exact .none
    | some i =>
      obtain ⟨x, hx, htypeName⟩ := hs.names.mp hname
      obtain ⟨j, hj⟩ := hs.exists_other ht hx
      rw [ht.names.mpr ⟨x, hj, htypeName⟩]
      exact .some ⟨x, hx, hj⟩
  contexts := ⟨hs.plain.contexts, ht.plain.contexts⟩
  declarations _ := hs.lookup_rel ht _

end TypesRegistered

lemma Rule.registerTypeNames_registers (env : Env) (hp : env.program.DistinctTypes) :
    Ends (visits env) (registerTypeNames env.program env.program.items) {} fun pairs t =>
      TypesRegistered env.program t ∧ pairs.map (·.1) = env.program.items.filter env.program.isType ∧
        ∀ pair ∈ pairs, t.declarations.lookup pair.1 = some pair.2 := by
  have hnamed : Ends (visits env) (registerTypeNames env.program env.program.items) {}
      fun pairs t => TypesNamed env.program ([] ++ pairs) t ∧ OnlyTypes ([] ++ pairs) t ∧
        pairs.map (·.1) = env.program.items.filter env.program.isType :=
    registerTypeNames_naming (fun _ h => h.naming _ _) _ (typesNamed_empty _)
      ⟨rfl, rfl, rfl, rfl, rfl⟩ (by simpa [Program.typeNames] using hp.typeNames)
  obtain ⟨htypes, honly, hitems⟩ := hnamed
  have hvisits : (visits env).Safe {} := stmtWithin_safe env.program.stmtDepth
  have hsafe := hvisits.grows (registerTypeNames_grows env.program env.program.items) start_sound
  obtain ⟨-, m, hsound, -⟩ := meets_performing_iff.mp hsafe
  have hstart : State.Coherent {} := .start identity_context (fun _ => rfl) fun _ h => h
  obtain ⟨-, hcoherent, -⟩ := registerTypeNames_agrees (v := visits env)
    (w := visits env) (E := (identity (fun _ => False) .any).Steady)
    (fun id _ => (StmtTwins.plain env).registers ⟨fun _ => rfl, trivial⟩)
    (fun id _ a b ha hb => ⟨trivial, by cases ha.symm.trans hb; rfl, fun _ _ => .inr trivial⟩) _ _ hstart
  refine ⟨.of_named hp ⟨htypes, hitems⟩ honly hsound.sound hcoherent, hitems, fun pair hpair => ?_⟩
  rw [honly.declarations]
  refine lookup_eq_some_of_mem ?_ (mem_reverse.mpr hpair)
  rw [map_reverse, nodup_reverse, nil_append, hitems]
  exact hp.nodup.filter _

end StaticTyping
