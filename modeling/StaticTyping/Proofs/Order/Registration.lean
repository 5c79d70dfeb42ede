import StaticTyping.Proofs.Order.Schedule
import StaticTyping.Proofs.Order.TypeNames

/-! Registering one item. It touches the item's own symbol, names and declarations only, and from states
that are the same for the item it goes on alike. -/

namespace StaticTyping

open Option Rule Check Mirror

def Rule.registerItem (p : Program) (named : StmtId → Option SymbolId) (x : StmtId) : Rule Unit :=
  match named x with
  | some i => populateType p x i
  | none => registerIfFunction p x

def Program.footprint (p : Program) (named : StmtId → Option SymbolId) (x : StmtId) : Footprint where
  owns i := named x = some i
  names := ((p.stmt x).kind.valueNames : List String)
  declares id := id ∈ p.methodsOf x ∨ p.isFunction x = true ∧ id = x

/-- A state at top level without aliases that has the symbols of the types. -/
structure State.Ready (named : StmtId → Option SymbolId) (s : State) : Prop extends s.Plain where
  named {x : StmtId} {i : SymbolId} : named x = some i → s.symbols.Fixes i

variable {p : Program} {named : StmtId → Option SymbolId} {x : StmtId}
  {named' : StmtId → Option SymbolId}

namespace Rule

variable {B : StmtId → Prop}

lemma registerItem_writes {permit : Permit} (howns : ∀ i, named x = some i → permit.owns i)
    (hdeclares : ∀ id, (p.footprint named x).declares id → permit.declares id) :
    Writes permit B (registerItem p named x) := by
  unfold registerItem
  cases hx : named x with
  | some i =>
    exact populateType_writes (.inr (howns i hx)) fun m hm => hdeclares m (.inl hm)
  | none => exact registerIfFunction_writes fun hfunction => hdeclares x (.inr ⟨hfunction, rfl⟩)

lemma registerItem_introduces (p : Program) (named : StmtId → Option SymbolId)
    (x : StmtId) : Introduces p B (p.footprint named x).names (registerItem p named x) := by
  unfold registerItem
  cases named x with
  | some i => exact populateType_introduces x i
  | none => exact registerIfFunction_introduces x

lemma registerItem_grows {n : Nat} (p : Program) (h : ∀ i, named x = some i → i.index < n) :
    Grows n (registerItem p named x) fun _ _ => True := by
  unfold registerItem
  cases hx : named x with
  | some i => exact populateType_grows (h i hx) p x
  | none => exact registerIfFunction_grows p x

lemma registerItem_plain {env : Env} :
    Keeps (visits env) (fun s => ∀ i, (s.symbols.get i).aliasTarget = none)
      (registerItem p named x) := by
  have hsilent : ∀ {α : Type} {rule : Rule α}, Silent True [] rule →
      Keeps (visits env) (fun s => ∀ i, (s.symbols.get i).aliasTarget = none) rule :=
    fun hrule => .of_ends fun s hs i =>
      (hrule.closed Check.Settling.closed (fun _ h _ => h.recording.settles) (expand_settling [])
        s).aliasTarget i
        |>.trans (hs i)
  have hregistering : Registering (visits env) (fun _ => False)
      fun s => ∀ i, (s.symbols.get i).aliasTarget = none := by
    refine .of_undisturbed (fun {s t} hst hs i => ?_) (fun _ _ hs => hs) fun t hs =>
      (hsilent (resolveType_does t).silent).ends hs
    by_cases hi : i.index < s.symbols.size
    · rw [hst.grows.target hi]
      exact hs i
    · exact (hst.grows.plain hi).2
  unfold registerItem
  cases named x with
  | some i =>
    exact populateType_keeps hregistering (fun _ _ h => h) fun _ _ => hsilent (expandDeclared_does i).silent
  | none => exact registerIfFunction_keeps hregistering fun _ _ h => h

end Rule

namespace Mirror

variable {m : Mirror} {v w : Visits} {E : TypeExpr → TypeExpr → Prop} {c : Names} {cs : List Names}
  {q : Program}

lemma registerItem_leads (hid : m.Registers c p q x)
    (hexpand : ∀ {c cs}, m.Context c → m.Expands v w (m.States E (c :: cs)) []) (hc : m.Context c)
    (hnamed : Rel m.symbols (named x) (named' x)) :
    m.Leads v w (fun s t => m.States E (c :: cs) s t ∧ ∀ i, named x = some i → s.symbols.Fixes i)
      (m.States E (c :: cs)) (registerItem p named x) (registerItem q named' x) Both := by
  unfold registerItem
  rcases rel_cases hnamed with ⟨hx, hy⟩ | ⟨i, j, hx, hy, hij⟩
  · rw [hx, hy]
    exact (registerIfFunction_agrees hid hexpand hc).assume fun _ _ h => h.1
  · rw [hx, hy]
    exact (populateType_leads hid hexpand hc hij).assume fun _ _ h => ⟨h.1, h.2 i rfl⟩

end Mirror

namespace Check

variable {env : Env} {s t : State}

def registerItem (env : Env) (named : StmtId → Option SymbolId) (x : StmtId) : Check Unit :=
  (Rule.registerItem env.program named x).toCheck (visits env)

abbrev registeredItem (env : Env) (named : StmtId → Option SymbolId) (x : StmtId) (s : State) : State :=
  ((registerItem env named x).run s).2

lemma registerItem_touches (env : Env) (x : StmtId) (hs : s.Ready named) :
    (env.program.footprint named x).Touches s.symbols.size s (registeredItem env named x s) := by
  let permit : Permit := ⟨s.symbols.size, (env.program.footprint named x).owns,
    (env.program.footprint named x).declares, fun _ => False⟩
  have hstart : permit.Keeps s s :=
    ⟨le_rfl, fun _ => hs.plain _, fun _ => rfl, fun _ _ => rfl, fun _ => rfl, fun h => h.elim⟩
  have hkeeps : permit.Keeps s (registeredItem env named x s) :=
    keeps_of_writes (writing_fulfil (B := fun _ => False) fun _ h => h.elim)
      (registerItem_writes (fun _ h => h) fun _ h => h) hstart
  have hvisits := visits_fulfil env fun c hc s => stmt_meets hc s
  obtain ⟨-, _, rfl, hintroduces⟩ := meets_performing_iff.mp
    (toCheck_meets hvisits (registerItem_introduces env.program named x s.outline) rfl)
  exact ⟨hkeeps.size, hkeeps.symbols, hkeeps.untouched, hkeeps.declarations, hintroduces⟩

/-- From states that are the same for the item, registering it goes on alike. Which other items the
program has plays no part. -/
lemma registerItem_runs (p : Program) (items : List StmtId) (options : Options) {r : Region}
    {π : SymbolPairs} (h : r.Matches π s t) (hs : s.Ready named)
    (hnamed : Rel π.holds (named x) (named' x)) (hx : r.declared x)
    (hchildren : ∀ id ∈ p.stmtChildren x, r.declared id)
    (hvalues : ∀ name ∈ (p.stmt x).kind.valueNames, r.values name) :
    let m := r.mirror (π.openAt s.symbols.size t.symbols.size)
    let s' := registeredItem ⟨p, options⟩ named x s
    let t' := registeredItem ⟨p.inOrder items, options⟩ named' x t
    m.States (fun _ _ => False) [Eq] s' t' ∧ m.Adds s t s' t' := by
  intro m s' t'
  have hsame : Names.IsSame Eq := fun _ => rfl
  have hregisters : m.Registers Eq p (p.inOrder items) x := by
    refine ⟨hx, hsame.stmtKind (fun _ => rfl) (fun _ _ => trivial) _, fun _ => ⟨rfl, trivial⟩,
      fun hname => hvalues _ hname, ?_⟩
    intro kind a b method ha hb hmethod
    cases ha.symm.trans hb
    refine ⟨hchildren method ?_,
      (hsame.inside (fun _ => rfl) _).stmtKind (fun _ => rfl) (fun _ _ => trivial) _⟩
    rw [Program.stmtChildren, ha]
    exact hmethod
  have hrel : Rel m.symbols (named x) (named' x) :=
    rel_imp hnamed fun i j hij => .inl ⟨hij, h.within hij⟩
  have hheeds (c : Names) : m.Heeds (fun _ _ => False) c := fun _ _ h => h.elim
  have hstart : m.States (fun _ _ => False) [Eq] s t ∧ ∀ i, named x = some i → s.symbols.Fixes i :=
    ⟨h.states hs.coherent, fun i hi => hs.named hi⟩
  exact (registerItem_leads (v := visits ⟨p, options⟩) (w := visits ⟨p.inOrder items, options⟩)
    hregisters (fun hc => ⟨fun span cyclic hij => expand_runs hc (hheeds _) hij span cyclic,
      calm_of_expand rfl⟩)
    Region.mirror_context hrel s t hstart).2

lemma registerItem_ready (env : Env) (x : StmtId) (hs : s.Ready named) :
    (registeredItem env named x s).Ready named := by
  have htouches := registerItem_touches env x hs
  have hgrows : Rule.Grows s.symbols.size (Rule.registerItem env.program named x) fun _ _ => True :=
    registerItem_grows env.program fun i hi => (hs.named hi).1
  have hvisits : (visits env).Safe {} := stmtWithin_safe env.program.stmtDepth
  have hsafe := hvisits.grows hgrows hs.sound
  obtain ⟨-, n, hsound, -⟩ := meets_performing_iff.mp hsafe
  have hnamed : Rel Eq (named x) (named x) := by
    cases named x with
    | none => exact .none
    | some i => exact .some rfl
  have hruns := registerItem_leads (v := visits env) (w := visits env)
    ((StmtTwins.plain env).registers ⟨fun _ => rfl, trivial⟩)
    (fun hc => ⟨fun span cyclic hij => expand_runs hc (steady_heeds hc) hij span cyclic,
      calm_of_expand rfl⟩)
    identity_context hnamed s s ⟨hs.coherent, fun i hi => hs.named hi⟩
  refine ⟨⟨hsound.sound, hruns.2.1, registerItem_plain.ends hs.plain,
    htouches.root hs.root, fun name => htouches.calm (hs.calm name), htouches.contexts hs.contexts⟩,
    fun {y i} hi => ?_⟩
  obtain ⟨hbound, hkind⟩ := hs.named hi
  refine ⟨hbound.trans_le htouches.size, ?_⟩
  rw [htouches.symbols hbound]
  exact hkind

lemma registerItem_confined (env : Env) (n : Nat) (xs : List StmtId) :
    Confined n (State.Ready named) (env.program.footprint named) (registerItem env named) xs := by
  intro x _ s hs hn
  exact ⟨registerItem_ready env x hs, (registerItem_touches env x hs).mono (fun _ h => h)
    (fun _ h => h) (fun _ h => h) hn⟩

end Check

end StaticTyping
