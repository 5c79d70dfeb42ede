import StaticTyping.Proofs.Aliases.Declared
import StaticTyping.Proofs.Mirror.Exchange

/-! States that mirror each other. Symbols stand for each other in pairs, fixed for the whole of both
runs: symbols allocated at the same time on both sides are a pair. How type names of the one side are
called on the other depends on the scope. -/

namespace StaticTyping

open SymbolTable List Option StaticTyping.Action State ScopeStack

/-- Which type names of one side stand for which of the other. -/
abbrev Names := String → String → Prop

/-- A finding that says something about the program as it is written, and neither about a cycle of
aliases nor about what a condition may be. -/
def Finding.isOrdinary (finding : Finding) : Bool :=
  finding.code != .aliasCycle && finding.code != .conditionType

lemma Finding.isOrdinary_iff {finding : Finding} :
    finding.isOrdinary ↔ finding.code ≠ .aliasCycle ∧ finding.code ≠ .conditionType := by
  simp [isOrdinary]

/-- What two runs have to agree on. -/
structure Mirror extends Pairing where
  /-- The names of values that are compared where the program declares its own. -/
  values : String → Prop
  /-- The declarations whose symbols are compared. -/
  declared : StmtId → Prop
  /-- The declarations that have their symbols from the start. -/
  known : StmtId → Prop
  /-- The symbols whose members and variants are compared. -/
  full : SymbolId → Prop
  /-- The type names that stand for themselves in every scope. -/
  fixed : String → Prop
  /-- What type names may stand for. -/
  kinds : NameKinds
  /-- Names and messages are the same on both sides. -/
  exact : Prop
  /-- Aliases may wait for their types. -/
  waiting : Prop
  output : List Diagnostic → List Diagnostic → Prop
  fixed_params {name : String} : fixed name → params name name
  exact_params {a b : String} : exact → params a b → a = b
  exact_strict : exact → ¬loose
  loose_fixed (name : String) : loose → fixed name
  output_nil : output [] []
  output_append {ds es ds' es' : List Diagnostic} : output ds es → output ds' es' →
    output (ds ++ ds') (es ++ es')
  output_perm {ds es es' : List Diagnostic} : loose → output ds es → es.Perm es' → output ds es'
  output_report {f g : Finding} (span : Span) : f.code = g.code → f.isOrdinary = true →
    (exact → f.message = g.message) → output [f.toDiagnostic span] [g.toDiagnostic span]
  output_cycle (name : String) (span : Span) : waiting →
    output [(Finding.aliasCycle name).toDiagnostic span] [(Finding.aliasCycle name).toDiagnostic span]

instance : Coe Mirror Pairing := ⟨Mirror.toPairing⟩

structure ParamInfo.Mirrors (m : Pairing) (a b : ParamInfo) : Prop where
  name : a.name = b.name
  ty : a.ty.Mirrors m b.ty
  role : a.role = b.role
  hasDefault : a.hasDefault = b.hasDefault
  isMutable : a.isMutable = b.isMutable
  span : a.span = b.span

structure Member.Mirrors (m : Pairing) (a b : Member) : Prop where
  name : a.name = b.name
  ty : a.ty.Mirrors m b.ty
  method : Option.Rel m.symbols a.method b.method

structure FunctionContext.Mirrors (m : Pairing) (a b : FunctionContext) : Prop where
  declared : Option.Rel (Ty.Mirrors m) a.declared b.declared
  returns : List.Forall₂ (Ty.Mirrors m) a.returns b.returns

/-- Symbols of the same kind that agree in all that is compared. Only an alias without a type still
needs its target, which then is as `targets` says. -/
structure Symbol.Mirrors (m : Mirror) (targets : TypeExpr → TypeExpr → Prop) (full : Prop)
    (a b : Symbol) : Prop where
  kind : a.kind = b.kind
  name : a.kind ≠ .typeParam → a.name = b.name
  exactName : m.exact → a.name = b.name
  span : a.span = b.span
  ty : Option.Rel (Ty.Mirrors m) a.ty b.ty
  params : List.Forall₂ (ParamInfo.Mirrors m) a.params b.params
  isMutable : a.isMutable = b.isMutable
  isConst : a.isConst = b.isConst
  isParameter : a.isParameter = b.isParameter
  typeParams : List.Forall₂ m.params a.typeParams b.typeParams
  members : full → List.Forall₂ (Member.Mirrors m) a.members b.members
  owner : Option.Rel m.symbols a.owner b.owner
  payload : List.Forall₂ (Ty.Mirrors m) a.payload b.payload
  variants : full → List.Forall₂ m.symbols a.variants b.variants
  target : Option.Rel (fun t u => a.name = b.name ∧ (a.ty = none → targets t u)) a.aliasTarget
    b.aliasTarget

/-- The symbol is there and is no type parameter, which never changes. -/
def SymbolTable.Fixes (table : SymbolTable) (id : SymbolId) : Prop :=
  id.index < table.size ∧ (table.get id).kind ≠ .typeParam

def SymbolTable.KeepsKinds (table table' : SymbolTable) : Prop :=
  ∀ id : SymbolId, id.index < table.size → id.index < table'.size ∧
    (table'.get id).kind = (table.get id).kind

lemma SymbolTable.KeepsKinds.trans {table table' table'' : SymbolTable}
    (h : table.KeepsKinds table') (h' : table'.KeepsKinds table'') : table.KeepsKinds table'' := by
  intro id hid
  obtain ⟨hbound, hkind⟩ := h id hid
  obtain ⟨hbound', hkind'⟩ := h' id hbound
  exact ⟨hbound', hkind'.trans hkind⟩

lemma SymbolTable.Fixes.mono {table table' : SymbolTable} {id : SymbolId} (h : table.Fixes id)
    (hkeep : table.KeepsKinds table') : table'.Fixes id := by
  obtain ⟨hbound, hkind⟩ := hkeep id h.1
  exact ⟨hbound, hkind ▸ h.2⟩

lemma SymbolTable.keepsKinds_alloc (table : SymbolTable) (symbol : Symbol) :
    table.KeepsKinds (table.alloc symbol).2 := by
  intro id hid
  rw [size_alloc, get_alloc_of_ne _ _ (Nat.ne_of_lt hid)]
  exact ⟨by omega, rfl⟩

lemma SymbolTable.keepsKinds_modify (table : SymbolTable) (id : SymbolId) {f : Symbol → Symbol}
    (hkind : ∀ symbol, (f symbol).kind = symbol.kind) : table.KeepsKinds (table.modify id f) := by
  intro other hother
  exact ⟨by rwa [size_modify], get_modify_field Symbol.kind f hkind id other⟩

namespace Mirror

variable (m : Mirror)

/-- The names are bound to symbols that stand for each other. Only type parameters may go by
different names. -/
structure Binds (table : SymbolTable) (a b : String) (i j : SymbolId) : Prop where
  paired : m.symbols i j
  bound : i.index < table.size
  kind : m.kinds b (table.get i).kind
  param : (table.get i).kind = .typeParam → m.params a b
  other : (table.get i).kind ≠ .typeParam → a = b

structure Context (c : Names) : Prop where
  unique : Relator.BiUnique c
  fixed {name : String} : m.fixed name → c name name
  exact {a b : String} : m.exact → c a b → a = b

/-- Frames that agree on the types and on the values that are compared. -/
structure Frames (compared : String → Prop) (table : SymbolTable) (c : Names) (f g : Frame) : Prop where
  values {name : String} : compared name →
    Option.Rel m.symbols (f.values.lookup name) (g.values.lookup name)
  narrowed {name : String} : compared name →
    Option.Rel (Ty.Mirrors m) (f.narrowed.lookup name) (g.narrowed.lookup name)
  types {a b : String} : c a b →
    Option.Rel (m.Binds table a b) (f.types.lookup a) (g.types.lookup b)

/-- Scopes frame by frame, each with its own way to call types. Names that an inner scope does not
declare are called as in the scope around it. Only the outermost scope may hold values that are not
compared. -/
inductive Scopes (table : SymbolTable) : List Names → List Frame → List Frame → Prop
  | root {c : Names} {f g : Frame} (hc : m.Context c) (h : m.Frames m.values table c f g) :
      Scopes table [c] [f] [g]
  | inside {c c' : Names} {cs : List Names} {f g : Frame} {fs gs : List Frame} (hc : m.Context c)
      (h : m.Frames (fun _ => True) table c f g) (hfree : ∀ a b, c a b → f.types.lookup a = none → c' a b)
      (hrest : Scopes table (c' :: cs) fs gs) : Scopes table (c :: c' :: cs) (f :: fs) (g :: gs)

/-- States in which the same can be said of symbols and names on both sides. What owns another symbol
or was declared by a statement is no type parameter, so that it has the same name on both sides. -/
structure States (targets : TypeExpr → TypeExpr → Prop) (cs : List Names) (s t : State) : Prop where
  symbols {i j : SymbolId} : m.symbols i j →
    (s.symbols.get i).Mirrors m targets (m.full i) (t.symbols.get j)
  bound {i j : SymbolId} : m.symbols i j → (i.index < s.symbols.size ↔ j.index < t.symbols.size)
  next (k : Nat) : m.symbols ⟨s.symbols.size + k⟩ ⟨t.symbols.size + k⟩
  owners {i k : SymbolId} : (s.symbols.get i).owner = some k → s.symbols.Fixes k
  noted {id : StmtId} {k : SymbolId} : s.declarations.lookup id = some k → s.symbols.Fixes k
  scopes : m.Scopes s.symbols cs s.scopes.frames t.scopes.frames
  contexts : List.Forall₂ (FunctionContext.Mirrors m) s.contexts t.contexts
  declarations {id : StmtId} : m.declared id →
    Option.Rel m.symbols (s.declarations.lookup id) (t.declarations.lookup id)
  known {id : StmtId} : m.known id → (s.declarations.lookup id).isSome

end Mirror

namespace Mirror

variable {m : Mirror} {table table' : SymbolTable} {c : Names} {cs : List Names} {f g : Frame}
  {fs gs : List Frame} {name a b : String} {i j : SymbolId} {compared : String → Prop}

lemma Binds.mono (h : m.Binds table a b i j)
    (hkeep : table.KeepsKinds table') : m.Binds table' a b i j := by
  obtain ⟨hbound, hkind⟩ := hkeep i h.bound
  exact ⟨h.paired, hbound, hkind ▸ h.kind, hkind ▸ h.param, hkind ▸ h.other⟩

lemma Frames.mono (h : m.Frames compared table c f g)
    (hkeep : table.KeepsKinds table') : m.Frames compared table' c f g where
  __ := h
  types hab := rel_imp (h.types hab) fun _ _ h => h.mono hkeep

lemma rel_findSome?_cons {α β : Type} {r : α → β → Prop} {x : Frame → Option α}
    {y : Frame → Option β} (h : Rel r (x f) (y g))
    (hrest : Rel r (fs.findSome? x) (gs.findSome? y)) :
    Rel r ((f :: fs).findSome? x) ((g :: gs).findSome? y) := by
  simp only [findSome?_cons]
  exact rel_elim h hrest fun _ _ hij => .some hij

lemma Frames.empty (compared : String → Prop) (table : SymbolTable) (c : Names) :
    m.Frames compared table c {} {} :=
  ⟨fun _ => .none, fun _ => .none, fun _ => .none⟩

namespace Scopes

lemma mono (h : m.Scopes table cs fs gs)
    (hkeep : table.KeepsKinds table') : m.Scopes table' cs fs gs := by
  induction h with
  | root hc h => exact .root hc (h.mono hkeep)
  | inside hc h hfree _ ih => exact .inside hc (h.mono hkeep) hfree ih

lemma context (h : m.Scopes table (c :: cs) fs gs) : m.Context c := by
  cases h with
  | root hc _ => exact hc
  | inside hc _ _ _ => exact hc

lemma push (h : m.Scopes table (c :: cs) fs gs) :
    m.Scopes table (c :: c :: cs) ({} :: fs) ({} :: gs) :=
  .inside h.context (.empty _ table c) (fun _ _ hab _ => hab) h

lemma value (h : m.Scopes table cs fs gs) (hname : m.values name) :
    Rel m.symbols (fs.findSome? (·.values.lookup name)) (gs.findSome? (·.values.lookup name)) := by
  induction h with
  | root _ h => exact rel_findSome?_cons (h.values hname) .none
  | inside _ h _ _ ih => exact rel_findSome?_cons (h.values trivial) ih

lemma type (h : m.Scopes table (c :: cs) fs gs) (hab : c a b) :
    Rel (m.Binds table a b) (fs.findSome? (·.types.lookup a))
      (gs.findSome? (·.types.lookup b)) := by
  generalize hl : c :: cs = l at h
  induction h generalizing c cs with
  | root _ h =>
    cases hl
    exact rel_findSome?_cons (h.types hab) .none
  | @inside c₁ c₂ rest f g fs gs _ h hfree _ ih =>
    cases hl
    rcases rel_cases (h.types hab) with ⟨hf, hg⟩ | ⟨i, j, hf, hg, hij⟩
    · simp only [findSome?_cons, hf, hg]
      exact ih (hfree a b hab hf) rfl
    · simp only [findSome?_cons, hf, hg]
      exact .some hij

end Scopes

inductive TracksAlike (m : Mirror) : Tracked → Tracked → Prop
  | narrowed {a b : Ty} (h : a.Mirrors m b) : TracksAlike m (.narrowed a) (.narrowed b)
  | declared {i j : SymbolId} (h : m.symbols i j) : TracksAlike m (.declared i) (.declared j)

lemma Frames.tracked? (h : m.Frames compared table c f g) (hname : compared name) :
    Rel m.TracksAlike (f.tracked? name) (g.tracked? name) := by
  unfold Frame.tracked?
  refine rel_elim (h.narrowed hname) ?_ fun _ _ h => .some (.narrowed h)
  exact rel_elim (h.values hname) .none fun _ _ h => .some (.declared h)

lemma Scopes.tracked? (h : m.Scopes table cs fs gs) (hname : m.values name) :
    Rel m.TracksAlike (fs.findSome? (·.tracked? name)) (gs.findSome? (·.tracked? name)) := by
  induction h with
  | root _ h => exact rel_findSome?_cons (h.tracked? hname) .none
  | inside _ h _ _ ih => exact rel_findSome?_cons (h.tracked? trivial) ih

lemma Frames.forget (h : m.Frames compared table c f g) (name : String) :
    m.Frames compared table c (f.forget name) (g.forget name) where
  __ := h
  narrowed {other} hother := by
    simp only [Frame.forget, lookup_filter_ne]
    split
    · exact .none
    · exact h.narrowed hother

lemma Frames.narrow (h : m.Frames compared table c f g) (name : String) {x y : Ty}
    (hxy : x.Mirrors m y) : m.Frames compared table c (f.narrow name x) (g.narrow name y) where
  __ := h
  narrowed {other} hother := by
    simp only [Frame.narrow, lookup_cons]
    split
    · exact .some hxy
    · exact (h.forget name).narrowed hother

lemma Frames.declareValue (h : m.Frames compared table c f g) (name : String)
    (hij : m.symbols i j) :
    m.Frames compared table c { f.forget name with values := (name, i) :: f.values }
      { g.forget name with values := (name, j) :: g.values } where
  __ := h.forget name
  values {other} hother := by
    simp only [lookup_cons]
    split
    · exact .some hij
    · exact h.values hother

lemma Scopes.clearFrames (h : m.Scopes table cs fs gs) (name : String) :
    m.Scopes table cs (clearFrames name fs) (clearFrames name gs) := by
  induction h with
  | root hc h =>
    simp only [ScopeStack.clearFrames, ite_self]
    exact .root hc (h.forget name)
  | @inside _ _ _ f g _ _ hc h hfree hrest ih =>
    have hdeclares : f.declares name = g.declares name := rel_isSome (h.values trivial)
    rw [ScopeStack.clearFrames, ScopeStack.clearFrames, hdeclares]
    split
    · exact .inside hc (h.forget name) hfree hrest
    · exact .inside hc (h.forget name) hfree ih

lemma Scopes.inner {f' g' : Frame} (h : m.Scopes table cs (f :: fs) (g :: gs))
    (hframes : ∀ compared c, m.Frames compared table c f g → m.Frames compared table c f' g')
    (htypes : f'.types = f.types) : m.Scopes table cs (f' :: fs) (g' :: gs) := by
  cases h with
  | root hc h => exact .root hc (hframes _ _ h)
  | inside hc h hfree hrest => exact .inside hc (hframes _ _ h) (by rwa [htypes]) hrest

lemma Scopes.innerValue (h : m.Scopes table cs (f :: fs) (g :: gs))
    (hname : m.values name ∨ 1 < cs.length) :
    Rel m.symbols (f.values.lookup name) (g.values.lookup name) := by
  cases h with
  | root _ h => exact h.values (hname.resolve_right (by simp))
  | inside _ h _ _ => exact h.values trivial

lemma Scopes.innerType (h : m.Scopes table (c :: cs) (f :: fs) (g :: gs)) (hab : c a b) :
    Rel (m.Binds table a b) (f.types.lookup a) (g.types.lookup b) := by
  cases h with
  | root _ h => exact h.types hab
  | inside _ h _ _ => exact h.types hab

/-- A name is declared on both sides at once, and the names around it are called as before. -/
lemma Scopes.declareType {c' : Names} (h : m.Scopes table (c :: cs) (f :: fs) (g :: gs))
    (hc : m.Context c') (hbinds : m.Binds table a b i j)
    (hsplit : ∀ x y, c' x y → x = a ∧ y = b ∨ x ≠ a ∧ y ≠ b ∧ c x y) :
    m.Scopes table (c' :: cs) ({ f with types := (a, i) :: f.types } :: fs)
      ({ g with types := (b, j) :: g.types } :: gs) := by
  have hframes : ∀ {compared}, m.Frames compared table c f g →
      m.Frames compared table c' { f with types := (a, i) :: f.types }
        { g with types := (b, j) :: g.types } := by
    intro compared h
    refine ⟨h.values, h.narrowed, fun {x y} hxy => ?_⟩
    rcases hsplit x y hxy with ⟨rfl, rfl⟩ | ⟨hx, hy, hxy⟩
    · simpa only [lookup_cons, beq_self_eq_true] using .some hbinds
    · simpa only [lookup_cons, beq_false_of_ne hx, beq_false_of_ne hy] using h.types hxy
  cases h with
  | root _ h => exact .root hc (hframes h)
  | inside _ h hfree hrest =>
    refine .inside hc (hframes h) (fun x y hxy hx => ?_) hrest
    rcases hsplit x y hxy with ⟨rfl, rfl⟩ | ⟨hne, -, hxy⟩
    · simp at hx
    · exact hfree x y hxy (by simpa only [lookup_cons, beq_false_of_ne hne] using hx)

lemma Scopes.declareSame (h : m.Scopes table (c :: cs) (f :: fs) (g :: gs))
    (hname : c name name) (hbinds : m.Binds table name name i j) :
    m.Scopes table (c :: cs) ({ f with types := (name, i) :: f.types } :: fs)
      ({ g with types := (name, j) :: g.types } :: gs) := by
  refine h.declareType h.context hbinds fun x y hxy => ?_
  by_cases hx : x = name
  · subst hx
    exact .inl ⟨rfl, h.context.unique.2 hxy hname⟩
  · exact .inr ⟨hx, fun hy => hx (h.context.unique.1 hxy (hy ▸ hname)), hxy⟩

namespace States

variable {E : TypeExpr → TypeExpr → Prop} {s t : State}

lemma lookupValue (h : m.States E cs s t) (hname : m.values name) :
    Rel m.symbols (s.scopes.lookupValue name) (t.scopes.lookupValue name) :=
  h.scopes.value hname

lemma lookupType (h : m.States E (c :: cs) s t) (hab : c a b) :
    Rel (m.Binds s.symbols a b) (s.scopes.lookupType a) (t.scopes.lookupType b) :=
  h.scopes.type hab

/-- Where members may change places, type names stand for what they may on the other side too. -/
lemma namesWithin (h : m.States E (c :: cs) s t) (hm : m.loose) : t.NamesWithin m.kinds := by
  intro name j hj
  have hlookup := h.lookupType (h.scopes.context.fixed (m.loose_fixed name hm))
  rw [hj] at hlookup
  generalize s.scopes.lookupType name = found at hlookup
  cases hlookup with
  | some hbinds => exact (h.symbols hbinds.paired).kind ▸ hbinds.kind

lemma lookupValueType (h : m.States E cs s t) (hname : m.values name) :
    Rel (Ty.Mirrors m) ((lookupValueType name).step s).1 ((lookupValueType name).step t).1 := by
  -- A symbol that was never allocated reads as one of unknown type.
  have hdeclared : ∀ (u : State) (id : SymbolId), u.scopes.tracked? name = some (.declared id) →
      ((Action.lookupValueType name).step u).1 = some (u.symbols.get id).tyOrUnknown := by
    intro u id hid
    simp only [step, valueType, hid, SymbolTable.get]
    cases hget : u.symbols.get? id <;> rfl
  have htracked : Rel m.TracksAlike (s.scopes.tracked? name) (t.scopes.tracked? name) :=
    h.scopes.tracked? hname
  rcases rel_cases htracked with ⟨hs, ht⟩ | ⟨x, y, hs, ht, hxy⟩
  · simp only [step, valueType, hs, ht]
    exact .none
  · cases hxy with
    | narrowed hxy =>
      simp only [step, valueType, hs, ht]
      exact .some hxy
    | declared hij =>
      rw [hdeclared s _ hs, hdeclared t _ ht]
      exact .some (rel_getD (h.symbols hij).ty .unknown)

lemma withScopes (h : m.States E cs s t) {cs' : List Names} {x y : ScopeStack}
    (hscopes : m.Scopes s.symbols cs' x.frames y.frames) :
    m.States E cs' { s with scopes := x } { t with scopes := y } :=
  { h with scopes := hscopes }

lemma withOutput (h : m.States E cs s t) (ds es : Diagnostics) (xs ys : TypeTable) :
    m.States E cs { s with diagnostics := ds, types := xs } { t with diagnostics := es, types := ys } :=
  { h with }

lemma alloc (h : m.States E cs s t) {x y : Symbol} (hxy : x.Mirrors m E True y)
    (howner : ∀ id, x.owner = some id → s.symbols.Fixes id) :
    m.States E cs { s with symbols := (s.symbols.alloc x).2 }
      { t with symbols := (t.symbols.alloc y).2 } := by
  have hlast : m.symbols ⟨s.symbols.size⟩ ⟨t.symbols.size⟩ := h.next 0
  have hsplit : ∀ {i j : SymbolId}, m.symbols i j → i = ⟨s.symbols.size⟩ ∧ j = ⟨t.symbols.size⟩ ∨
        i.index ≠ s.symbols.size ∧ j.index ≠ t.symbols.size := by
    intro i j hij
    by_cases hi : i.index = s.symbols.size
    · obtain rfl : i = ⟨s.symbols.size⟩ := congrArg SymbolId.mk hi
      exact .inl ⟨rfl, m.symbols_unique.2 hij hlast⟩
    · refine .inr ⟨hi, fun hj => hi ?_⟩
      obtain rfl : j = ⟨t.symbols.size⟩ := congrArg SymbolId.mk hj
      exact congrArg SymbolId.index (m.symbols_unique.1 hij hlast)
  have hkeep := s.symbols.keepsKinds_alloc x
  refine ⟨fun {i j} hij => ?_, fun {i j} hij => ?_, fun k => ?_, fun {i k} hi => ?_,
    fun hid => (h.noted hid).mono hkeep, h.scopes.mono hkeep, h.contexts, h.declarations, h.known⟩
  · rcases hsplit hij with ⟨rfl, rfl⟩ | ⟨hi, hj⟩
    · rw [get_alloc_new, get_alloc_new]
      exact { hxy with members := fun _ => hxy.members trivial
                       variants := fun _ => hxy.variants trivial }
    · rw [get_alloc_of_ne _ _ hi, get_alloc_of_ne _ _ hj]
      exact h.symbols hij
  · rw [size_alloc, size_alloc]
    rcases hsplit hij with ⟨rfl, rfl⟩ | ⟨hi, hj⟩
    · simp
    · have hbound := h.bound hij
      omega
  · have hnext := h.next (k + 1)
    rw [size_alloc, size_alloc]
    rwa [Nat.add_assoc, Nat.add_assoc, Nat.add_comm 1 k]
  · refine .mono ?_ hkeep
    by_cases hlast : i.index = s.symbols.size
    · obtain rfl : i = ⟨s.symbols.size⟩ := congrArg SymbolId.mk hlast
      exact howner k (by rwa [get_alloc_new] at hi)
    · exact h.owners (by rwa [get_alloc_of_ne _ _ hlast] at hi)

lemma modify (h : m.States E cs s t) (hij : m.symbols i j) {x y : Symbol → Symbol}
    (hkind : ∀ symbol, (x symbol).kind = symbol.kind)
    (howner : ∀ symbol, (x symbol).owner = symbol.owner)
    (hxy : ∀ a b, a.Mirrors m E (m.full i) b → (x a).Mirrors m E (m.full i) (y b)) :
    m.States E cs (s.modifySymbol i x) (t.modifySymbol j y) := by
  have hget : ∀ {i' j' : SymbolId}, m.symbols i' j' →
      ((s.modifySymbol i x).symbols.get i').Mirrors m E (m.full i')
        ((t.modifySymbol j y).symbols.get j') := by
    intro i' j' hij'
    by_cases hi : i' = i
    · subst hi
      obtain rfl := m.symbols_unique.2 hij hij'
      by_cases hbound : i'.index < s.symbols.size
      · simp only [modifySymbol, get_modify_self _ _ hbound,
          get_modify_self _ _ ((h.bound hij).mp hbound)]
        exact hxy _ _ (h.symbols hij)
      · simp only [modifySymbol, get_modify_of_not_lt _ _ hbound,
          get_modify_of_not_lt _ _ (fun hj => hbound ((h.bound hij).mpr hj))]
        exact h.symbols hij
    · have hj : j' ≠ j := fun hj => hi (m.symbols_unique.1 hij' (hj ▸ hij))
      simp only [modifySymbol, get_modify_of_ne _ _ hi, get_modify_of_ne _ _ hj]
      exact h.symbols hij'
  have hkeep := s.symbols.keepsKinds_modify i hkind
  refine ⟨hget, fun hij' => ?_, fun k => ?_, fun {i' k} hi' => ?_,
    fun hid => (h.noted hid).mono hkeep, h.scopes.mono hkeep, h.contexts, h.declarations, h.known⟩
  · simp only [modifySymbol, size_modify]
    exact h.bound hij'
  · simp only [modifySymbol, size_modify]
    exact h.next k
  · refine (h.owners (i := i') ?_).mono hkeep
    rwa [modifySymbol, get_modify_field Symbol.owner x howner] at hi'

end States

end Mirror

end StaticTyping
