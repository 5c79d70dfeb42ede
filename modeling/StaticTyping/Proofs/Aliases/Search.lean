import StaticTyping.Proofs.Aliases.Expansion

/-! Expansion as a search through aliases. When an alias gets its type, each alias that it refers to
has its type already or is being expanded, and in the latter case all aliases from there on are marked
as cyclic. So of aliases that lead to each other, one at least is marked before it gets its type, and
all of them are if they refer to each other in a single ring. -/

namespace StaticTyping

open Relation List Rule

variable {b s t : State} {active names : List String}

namespace State

def Refers (b : State) (u v : SymbolId) : Prop :=
  ∃ target, (b.symbols.get u).aliasTarget = some target ∧ b.AliasAmong target.names v

def Open (s : State) (id : SymbolId) : Prop := (s.symbols.get id).ty = none

/-- Every alias has a target, and no two of them have one name. -/
structure ProperAliases (b : State) : Prop where
  target {id : SymbolId} :
    (b.symbols.get id).kind = .typeAlias → (b.symbols.get id).aliasTarget.isSome
  distinct {u v : SymbolId} : (b.symbols.get u).aliasTarget.isSome →
    (b.symbols.get v).aliasTarget.isSome → (b.symbols.get u).name = (b.symbols.get v).name → u = v

lemma Refers.isSome_left {u v : SymbolId} (h : b.Refers u v) :
    (b.symbols.get u).aliasTarget.isSome := by
  obtain ⟨target, htarget, -⟩ := h
  simp [htarget]

lemma ProperAliases.isSome_right (hb : b.ProperAliases) {u v : SymbolId}
    (h : b.Refers u v) : (b.symbols.get v).aliasTarget.isSome := by
  obtain ⟨_, _, _, _, _, _, hkind⟩ := h
  exact hb.target hkind

/-- Aliases are in the second state what they are in the first, and refer to the same aliases. -/
structure KeepsAliases (b s : State) : Prop where
  target (id : SymbolId) : (s.symbols.get id).aliasTarget = (b.symbols.get id).aliasTarget
  name {id : SymbolId} : (b.symbols.get id).aliasTarget.isSome →
    (s.symbols.get id).name = (b.symbols.get id).name
  among {id other : SymbolId} {target : TypeExpr} : (b.symbols.get id).aliasTarget = some target →
    (s.AliasAmong target.names other ↔ b.AliasAmong target.names other)

protected lemma KeepsAliases.refl (b : State) : b.KeepsAliases b :=
  ⟨fun _ => rfl, fun _ => rfl, fun _ => .rfl⟩

lemma KeepsAliases.refines (hb : b.KeepsAliases s) (h : s.Refines t) : b.KeepsAliases t where
  target id := (h.aliasTarget id).trans (hb.target id)
  name halias := (h.name _).trans (hb.name halias)
  among htarget := by simpa only [AliasAmong, h.scopes, h.kind] using hb.among htarget

end State

lemma Rule.cycleThrough_cons_of_ne {name other : String} (h : other ≠ name) :
    cycleThrough (name :: active) other = name :: cycleThrough active other := by
  have hne : (name != other) := by simpa using h.symm
  simp [cycleThrough, hne]

lemma Rule.mem_cycleThrough_cons (active : List String) (name other : String) :
    name ∈ cycleThrough (name :: active) other := by
  by_cases h : other = name
  · simp [cycleThrough, h]
  · simp [cycleThrough_cons_of_ne h]

/-- The alias has its type, or it is being expanded and all from there on are marked as cyclic. -/
def Settled (b : State) (active : List String) (w : Progress) (id : SymbolId) : Prop :=
  ¬w.2.Open id ∨ (b.symbols.get id).name ∈ active ∧
    Rule.cycleThrough active (b.symbols.get id).name ⊆ w.1

/-- What an expansion inside others does, where `Origin` says from which aliases it searches. -/
structure Explores (b : State) (active : List String) (Origin : SymbolId → Prop) (u w : Progress) :
    Prop where
  refines : u.2.Refines w.2
  grows : u.1 ⊆ w.1
  waits {id : SymbolId} : (b.symbols.get id).aliasTarget.isSome →
    (b.symbols.get id).name ∈ active → u.2.Open id → w.2.Open id
  settles {id other : SymbolId} : u.2.Open id → ¬w.2.Open id → b.Refers id other →
    Settled b active w other
  reached {id : SymbolId} : u.2.Open id → ¬w.2.Open id →
    ∃ origin, Origin origin ∧ ReflTransGen b.Refers origin id

section

variable {b : State} {active : List String} {Origin : SymbolId → Prop} {u v w : Progress}
  {id other x y : SymbolId}

lemma Settled.mono (hrefines : u.2.Refines w.2) (hgrows : u.1 ⊆ w.1) (h : Settled b active u id) :
    Settled b active w id := by
  rcases h with hknown | ⟨hactive, hmarked⟩
  · exact .inl fun hopen => hknown (hrefines.open_of_open hopen)
  · exact .inr ⟨hactive, List.Subset.trans hmarked hgrows⟩

namespace Explores

lemma of_symbols {cyclic : Cyclic} (hsymbols : t.symbols = w.2.symbols)
    (hscopes : t.scopes = w.2.scopes) (hgrows : w.1 ⊆ cyclic) :
    Explores b active Origin w (cyclic, t) := by
  have hopen (id : SymbolId) : t.Open id ↔ w.2.Open id := by simp only [State.Open, hsymbols]
  exact ⟨.of_symbols hsymbols hscopes, hgrows, fun _ _ h => (hopen _).mpr h,
    fun h hn => (hn ((hopen _).mpr h)).elim, fun h hn => (hn ((hopen _).mpr h)).elim⟩

lemma trans (huv : Explores b active Origin u v) (hvw : Explores b active Origin v w) :
    Explores b active Origin u w where
  refines := huv.refines.trans hvw.refines
  grows := List.Subset.trans huv.grows hvw.grows
  waits halias hactive hopen := hvw.waits halias hactive (huv.waits halias hactive hopen)
  settles {id other} hopen hknown hrefers := by
    by_cases hmiddle : v.2.Open id
    · exact hvw.settles hmiddle hknown hrefers
    · exact (huv.settles hopen hmiddle hrefers).mono hvw.refines hvw.grows
  reached {id} hopen hknown := by
    by_cases hmiddle : v.2.Open id
    · exact hvw.reached hmiddle hknown
    · exact huv.reached hopen hmiddle

lemma mono {Origin' : SymbolId → Prop} (h : Explores b active Origin u w)
    (horigin : ∀ origin, Origin origin → ∃ origin', Origin' origin' ∧
      ReflTransGen b.Refers origin' origin) : Explores b active Origin' u w :=
  { h with
    reached := fun hopen hknown => by
      obtain ⟨origin, ho, hpath⟩ := h.reached hopen hknown
      obtain ⟨origin', ho', hpath'⟩ := horigin origin ho
      exact ⟨origin', ho', hpath'.trans hpath⟩ }

end Explores

def Knot (b : State) (u v : SymbolId) : Prop := TransGen b.Refers u v ∧ TransGen b.Refers v u

/-- Each of the aliases that lead to this one and back refers to one of them only. -/
def Ring (b : State) (x : SymbolId) : Prop :=
  ∀ u v v', Knot b x u → Knot b x v → Knot b x v' → b.Refers u v → b.Refers u v' → v = v'

def OpenRefers (b s : State) (u v : SymbolId) : Prop := s.Open u ∧ b.Refers u v

lemma Knot.isSome (h : Knot b x id) : (b.symbols.get id).aliasTarget.isSome := by
  obtain ⟨other, hrefers, -⟩ := TransGen.head'_iff.mp h.2
  exact hrefers.isSome_left

lemma Knot.between {z v : SymbolId} (hy : Knot b x y) (hz : Knot b x z)
    (hyv : ReflTransGen b.Refers y v) (hvz : ReflTransGen b.Refers v z) : Knot b x v :=
  ⟨hy.1.trans_left hyv, hz.2.trans_right hvz⟩

/-- Inside a knot of open aliases every one leads back to itself through open ones. -/
lemma Knot.openRefers (hopen : ∀ v, Knot b x v → s.Open v)
    (hy : Knot b x y) : TransGen (OpenRefers b s) y y := by
  have hback : TransGen b.Refers y y := hy.2.trans hy.1
  have hpath {v : SymbolId} (h : TransGen b.Refers v y) (hv : Knot b x v) :
      TransGen (OpenRefers b s) v y := by
    induction h using TransGen.head_induction_on with
    | single hlast => exact .single ⟨hopen _ hv, hlast⟩
    | head hfirst hrest ih =>
      exact .head ⟨hopen _ hv, hfirst⟩ (ih (hv.between hy (.single hfirst) hrest.to_reflTransGen))
  exact hpath hback hy

/-- What holds of all aliases in a knot, from one state to the next. If no alias of the knot is being
expanded, one of them is an error when they no longer are all open. In a ring, all are that are not
being expanded. -/
structure Sweeps (b : State) (active : List String) (s t : State) : Prop where
  knot {x : SymbolId} : (∀ v, Knot b x v → (b.symbols.get v).name ∉ active) →
    (∀ v, Knot b x v → s.Open v) →
    (∀ v, Knot b x v → t.Open v) ∨ ∃ v, Knot b x v ∧ (t.symbols.get v).ty = some .error
  ring {x : SymbolId} : Ring b x → (∀ v, Knot b x v → s.Open v) → (∀ v, Knot b x v → t.Open v) ∨
      ∀ v, Knot b x v → (b.symbols.get v).name ∉ active → (t.symbols.get v).ty = some .error

namespace Sweeps

variable {r s t : State}

lemma of_symbols (hsymbols : t.symbols = s.symbols) : Sweeps b active s t := by
  have hopen (id : SymbolId) : t.Open id ↔ s.Open id := by simp only [State.Open, hsymbols]
  exact ⟨fun _ h => .inl fun v hv => (hopen v).mpr (h v hv),
    fun _ h => .inl fun v hv => (hopen v).mpr (h v hv)⟩

lemma trans (hrs : Sweeps b active r s) (hst : Sweeps b active s t) (hrefines : s.Refines t) :
    Sweeps b active r t where
  knot {x} hidle hopen := by
    rcases hrs.knot hidle hopen with hopen | ⟨v, hv, herror⟩
    · exact hst.knot hidle hopen
    · exact .inr ⟨v, hv, hrefines.known herror⟩
  ring {x} hring hopen := by
    rcases hrs.ring hring hopen with hopen | herror
    · exact hst.ring hring hopen
    · exact .inr fun v hv hidle => hrefines.known (herror v hv hidle)

end Sweeps

/-- The search inside the aliases in `active`, from those that `Origin` says. -/
def Searches (b : State) (active : List String) (Origin : SymbolId → Prop) (u w : Progress) : Prop :=
  Explores b active Origin u w ∧ Sweeps b active u.2 w.2

lemma searches_course : Course (Searches b active Origin) fun id _ w => Settled b active w id where
  refl _ := ⟨.of_symbols rfl rfl (.refl _), .of_symbols rfl⟩
  trans huv hvw := ⟨huv.1.trans hvw.1, huv.2.trans hvw.2 hvw.1.refines⟩
  report _ _ _ _ := ⟨.of_symbols rfl rfl (.refl _), .of_symbols rfl⟩
  scopes h := h.1.refines.scopes
  kind h := h.1.refines.kind
  found h hsettled := hsettled.mono h.1.refines h.1.grows

/-- The aliases being expanded lead to this one, each by way of the next. -/
structure Trail (b : State) (active : List String) (id : SymbolId) : Prop where
  leads {u : SymbolId} : (b.symbols.get u).aliasTarget.isSome → (b.symbols.get u).name ∈ active →
    ReflTransGen b.Refers u id
  next {u : SymbolId} : (b.symbols.get u).aliasTarget.isSome → (b.symbols.get u).name ∈ active →
    ∃ v, b.Refers u v ∧ (v = id ∨ (b.symbols.get v).name ∈ active)

lemma Trail.cons (hb : b.ProperAliases) (h : Trail b active id) (hrefers : b.Refers id other) :
    Trail b ((b.symbols.get id).name :: active) other where
  leads {u} halias hactive := by
    rcases mem_cons.mp hactive with hname | hactive
    · obtain rfl := hb.distinct halias hrefers.isSome_left hname
      exact .single hrefers
    · exact (h.leads halias hactive).tail hrefers
  next {u} halias hactive := by
    rcases mem_cons.mp hactive with hname | hactive
    · obtain rfl := hb.distinct halias hrefers.isSome_left hname
      exact ⟨other, hrefers, .inl rfl⟩
    · obtain ⟨v, huv, hv⟩ := h.next halias hactive
      refine ⟨v, huv, .inr (mem_cons.mpr ?_)⟩
      rcases hv with rfl | hactive
      · exact .inl rfl
      · exact .inr hactive

section Closing

variable {name : String}

/-- A way through open aliases to one that is being expanded marks the latest of these. -/
lemma Explores.marked (h : Explores b (name :: active) Origin u w)
    (hid : Settled b (name :: active) w id) (hpath : ReflTransGen (OpenRefers b u.2) id other)
    (halias : (b.symbols.get other).aliasTarget.isSome)
    (hactive : (b.symbols.get other).name ∈ name :: active) (hopen : u.2.Open other) :
    name ∈ w.1 := by
  induction hpath using ReflTransGen.head_induction_on with
  | refl =>
    rcases hid with hknown | ⟨-, hmarked⟩
    · exact absurd (h.waits halias hactive hopen) hknown
    · exact hmarked (mem_cycleThrough_cons ..)
  | head hstep _ ih =>
    rcases hid with hknown | ⟨-, hmarked⟩
    · exact ih (h.settles hstep.1 hknown hstep.2)
    · exact hmarked (mem_cycleThrough_cons ..)

/-- Once the latest alias has its type, what was settled under it is settled without it. -/
lemma Settled.close (hb : b.ProperAliases)
    (hid : (b.symbols.get id).aliasTarget.isSome) (hother : (b.symbols.get other).aliasTarget.isSome)
    (hrefines : w.2.Refines t) (hknown : ¬t.Open id)
    (h : Settled b ((b.symbols.get id).name :: active) w other) : Settled b active (w.1, t) other := by
  rcases h with hdone | ⟨hactive, hmarked⟩
  · exact .inl fun hopen => hdone (hrefines.open_of_open hopen)
  · by_cases hname : (b.symbols.get other).name = (b.symbols.get id).name
    · obtain rfl := hb.distinct hother hid hname
      exact .inl hknown
    · rw [cycleThrough_cons_of_ne hname] at hmarked
      refine .inr ⟨(mem_cons.mp hactive).resolve_left hname, ?_⟩
      exact fun marked hmem => hmarked (mem_cons_of_mem _ hmem)

structure Closing (b : State) (active : List String) (id : SymbolId) (u w : Progress) : Prop where
  isAlias : (b.symbols.get id).aliasTarget.isSome
  idle : (b.symbols.get id).name ∉ active
  isOpen : u.2.Open id
  searches : Searches b ((b.symbols.get id).name :: active) (b.Refers id) u w
  settles {other : SymbolId} : b.Refers id other → Settled b ((b.symbols.get id).name :: active) w other

namespace Closing

variable {ty : Ty}

abbrev after (id : SymbolId) (ty : Ty) (s : State) : State := ((Action.fillType id ty).step s).2

lemma open_after_iff (hne : other ≠ id) : (after id ty w.2).Open other ↔ w.2.Open other := by
  simp only [State.Open, after, State.fillType_other _ hne]

lemma type_after (h : Closing b active id u w) (hkeeps : b.KeepsAliases u.2) (ty : Ty) :
    ((after id ty w.2).symbols.get id).ty = some ty := by
  refine State.fillType_open ?_ (h.searches.1.waits h.isAlias (.head _) h.isOpen) ty
  rw [h.searches.1.refines.aliasTarget, hkeeps.target]
  exact h.isAlias

lemma not_open_after (h : Closing b active id u w) (hkeeps : b.KeepsAliases u.2) (ty : Ty) :
    ¬(after id ty w.2).Open id := by
  simp [State.Open, h.type_after hkeeps ty]

lemma explores (hb : b.ProperAliases) (h : Closing b active id u w) (hkeeps : b.KeepsAliases u.2)
    (ty : Ty) : Explores b active (· = id) u (w.1, after id ty w.2) := by
  have hrefines : w.2.Refines (after id ty w.2) := .fillType w.2 id ty
  have hclose {v x : SymbolId} (hrefers : b.Refers v x)
      (hx : Settled b ((b.symbols.get id).name :: active) w x) :
      Settled b active (w.1, after id ty w.2) x :=
    hx.close hb h.isAlias (hb.isSome_right hrefers) hrefines (h.not_open_after hkeeps ty)
  refine ⟨h.searches.1.refines.trans hrefines, h.searches.1.grows, ?_, ?_, ?_⟩
  · intro v halias hactive hopen
    have hne : v ≠ id := fun heq => h.idle (heq ▸ hactive)
    exact (open_after_iff hne).mpr (h.searches.1.waits halias (.tail _ hactive) hopen)
  · intro v x hopen hknown hrefers
    by_cases hv : v = id
    · subst hv
      exact hclose hrefers (h.settles hrefers)
    · rw [open_after_iff hv] at hknown
      exact hclose hrefers (h.searches.1.settles hopen hknown hrefers)
  · intro v hopen hknown
    by_cases hv : v = id
    · exact ⟨id, rfl, hv ▸ .refl⟩
    · rw [open_after_iff hv] at hknown
      obtain ⟨origin, horigin, hpath⟩ := h.searches.1.reached hopen hknown
      exact ⟨id, rfl, hpath.head horigin⟩

lemma marked (h : Closing b active id u w) (hcycle : TransGen (OpenRefers b u.2) id id) :
    (b.symbols.get id).name ∈ w.1 := by
  obtain ⟨next, hstep, hpath⟩ := TransGen.head'_iff.mp hcycle
  exact h.searches.1.marked (h.settles hstep.2) hpath h.isAlias (.head _) h.isOpen

/-- In a ring that is still open, all aliases are being expanded. -/
lemma active_of_ring (hb : b.ProperAliases) (h : Closing b active id u w)
    (htrail : Trail b active id) (hring : Ring b x) (hid : Knot b x id)
    (hopen : ∀ v, Knot b x v → w.2.Open v) {v : SymbolId} (hv : Knot b x v) :
    (b.symbols.get v).name ∈ (b.symbols.get id).name :: active := by
  have hpath : ReflTransGen b.Refers id v := (hid.2.trans hv.1).to_reflTransGen
  induction hpath with
  | refl => exact .head _
  | @tail y v hpath hstep ih =>
    have hy : Knot b x y := hid.between hv hpath (.single hstep)
    rcases mem_cons.mp (ih hy) with hname | hactive
    · -- What the latest alias refers to is settled, and it is open.
      obtain rfl := hb.distinct hy.isSome h.isAlias hname
      rcases h.settles hstep with hknown | ⟨hactive, -⟩
      · exact absurd (hopen v hv) hknown
      · exact hactive
    · -- An earlier alias refers to the next on the trail, and to no other of the ring.
      obtain ⟨next, hnext, hplace⟩ := htrail.next hy.isSome hactive
      have hreach : ReflTransGen b.Refers next id := by
        rcases hplace with rfl | hplace
        · exact .refl
        · exact htrail.leads (hb.isSome_right hnext) hplace
      have hknot : Knot b x next := hy.between hid (.single hnext) hreach
      obtain rfl := hring y next v hy hknot hv hnext hstep
      rcases hplace with rfl | hplace
      · exact .head _
      · exact .tail _ hplace

lemma sweeps (hb : b.ProperAliases) (h : Closing b active id u w) (hkeeps : b.KeepsAliases u.2)
    (htrail : Trail b active id) (hty : (b.symbols.get id).name ∈ w.1 → ty = .error) :
    Sweeps b active u.2 (after id ty w.2) := by
  have hrefines : w.2.Refines (after id ty w.2) := .fillType w.2 id ty
  have herror {x : SymbolId} (hid : Knot b x id) (hopen : ∀ v, Knot b x v → u.2.Open v) :
      ((after id ty w.2).symbols.get id).ty = some .error := by
    rw [h.type_after hkeeps, hty (h.marked (hid.openRefers hopen))]
  have hstill {x : SymbolId} (hid : ¬Knot b x id) (hopen : ∀ v, Knot b x v → w.2.Open v) :
      ∀ v, Knot b x v → (after id ty w.2).Open v :=
    fun v hv => (open_after_iff fun heq : v = id => hid (heq ▸ hv)).mpr (hopen v hv)
  have houtside {x v : SymbolId} (hid : ¬Knot b x id) (hv : Knot b x v)
      (hactive : (b.symbols.get v).name ∉ active) :
      (b.symbols.get v).name ∉ (b.symbols.get id).name :: active := by
    intro hmem
    rcases mem_cons.mp hmem with hname | hmem
    · exact hid (hb.distinct hv.isSome h.isAlias hname ▸ hv)
    · exact hactive hmem
  constructor
  · intro x hidle hopen
    by_cases hid : Knot b x id
    · exact .inr ⟨id, hid, herror hid hopen⟩
    · have hidle' := fun v hv => houtside hid hv (hidle v hv)
      rcases h.searches.2.knot hidle' hopen with hopen | ⟨v, hv, hfailed⟩
      · exact .inl (hstill hid hopen)
      · exact .inr ⟨v, hv, hrefines.known hfailed⟩
  · intro x hring hopen
    by_cases hid : Knot b x id
    · refine .inr fun v hv hactive => ?_
      by_cases hname : (b.symbols.get v).name = (b.symbols.get id).name
      · obtain rfl := hb.distinct hv.isSome h.isAlias hname
        exact herror hv hopen
      · have hidle : (b.symbols.get v).name ∉ (b.symbols.get id).name :: active := by
          simp [hname, hactive]
        rcases h.searches.2.ring hring hopen with hopen | hfailed
        · exact absurd (h.active_of_ring hb htrail hring hid hopen hv) hidle
        · exact hrefines.known (hfailed v hv hidle)
    · rcases h.searches.2.ring hring hopen with hopen | hfailed
      · exact .inl (hstill hid hopen)
      · exact .inr fun v hv hactive => hrefines.known (hfailed v hv (houtside hid hv hactive))

end Closing

end Closing

structure Expanded (b : State) (active : List String) (id : SymbolId) (u w : Progress) : Prop where
  searches : Searches b active (· = id) u w
  settled : Settled b active w id
  failed : TransGen (OpenRefers b u.2) id id → (b.symbols.get id).name ∉ active →
    (w.2.symbols.get id).ty = some .error

lemma Closing.expanded {ty : Ty} (hb : b.ProperAliases) (h : Closing b active id u w)
    (hkeeps : b.KeepsAliases u.2) (htrail : Trail b active id)
    (hty : (b.symbols.get id).name ∈ w.1 → ty = .error) :
    Expanded b active id u (w.1, after id ty w.2) where
  searches := ⟨h.explores hb hkeeps ty, h.sweeps hb hkeeps htrail hty⟩
  settled := .inl (h.not_open_after hkeeps ty)
  failed hcycle _ := by rw [h.type_after hkeeps, hty (h.marked hcycle)]

end

lemma State.AliasNames.refines (h : s.AliasNames names)
    (hrefines : s.Refines t) : t.AliasNames names := by
  intro symbol hsymbol halias
  obtain ⟨i, hi, rfl⟩ := Array.mem_iff_getElem.mp hsymbol
  have hget : t.symbols.get ⟨i⟩ = t.symbols.symbols[i] := by
    simp [SymbolTable.get, SymbolTable.get?, hi]
  rw [← hget] at halias ⊢
  rw [hrefines.aliasTarget] at halias
  rw [hrefines.name]
  exact h.get ⟨i⟩ halias

namespace Check

/-- An expansion is a search. The induction is on the depth, which bounds how many more aliases can be
expanded inside those in `active`. -/
lemma expandWithin_expanded (hb : b.ProperAliases)
    {depth : Nat} (h : Expanding names depth active) {id : SymbolId} (span : Span) {w : Progress}
    (hnames : w.2.AliasNames names) (hkeeps : b.KeepsAliases w.2)
    (halias : (b.symbols.get id).aliasTarget.isSome) (htrail : Trail b active id) :
    Expanded b active id w (((expandWithin depth active id span w.1).run w.2).1.2,
      ((expandWithin depth active id span w.1).run w.2).2) := by
  induction depth generalizing active id span w with
  | zero => exact h.depth_pos.elim
  | succ depth ih =>
    obtain ⟨target, htarget⟩ := Option.isSome_iff_exists.mp halias
    have hname := hkeeps.name halias
    have hread : (w.2.symbols.get id).aliasTarget = some target := (hkeeps.target id).trans htarget
    have hends : Rule.Ends { expand := expandWithin depth } (expandAlias active id span w.1) w.2
        fun r t => Expanded b active id w (r.2, t) := by
      refine expandAlias_ends hread ?_ ?_ ?_
      · intro ty hty
        have hknown : ¬w.2.Open id := by simp [State.Open, hty]
        refine ⟨searches_course.refl w, .inl hknown, fun hcycle => ?_⟩
        obtain ⟨next, hstep, -⟩ := TransGen.head'_iff.mp hcycle
        exact absurd hstep.1 hknown
      · intro _ hactive
        rw [hname] at hactive ⊢
        refine ⟨⟨.of_symbols rfl rfl (subset_append_right _ _), .of_symbols rfl⟩,
          .inr ⟨hactive, subset_append_left _ _⟩, fun _ hidle => absurd hactive hidle⟩
      · intro hopen hidle
        rw [hname] at hidle ⊢
        have hexpanding := h.cons hidle (hname ▸ hnames.get id (by simp [hread]))
        have hexpand : Expands { expand := expandWithin depth } ((b.symbols.get id).name :: active)
            (Searches b ((b.symbols.get id).name :: active) (b.Refers id))
            (fun other _ w => Settled b ((b.symbols.get id).name :: active) w other) w
            target.names := by
          intro v other span hv hother
          have hrefers : b.Refers id other := ⟨target, htarget, (hkeeps.among htarget).mp hother⟩
          have hexpanded := ih hexpanding span (hnames.refines hv.1.refines)
            (hkeeps.refines hv.1.refines) (hb.isSome_right hrefers) (htrail.cons hb hrefers)
          refine ⟨⟨hexpanded.searches.1.mono ?_, hexpanded.searches.2⟩, hexpanded.settled⟩
          rintro _ rfl
          exact ⟨_, hrefers, .refl⟩
        refine (resolveIn_denotes searches_course target hexpand (searches_course.refl w)).mono ?_
        rintro r t ⟨hsearches, hdenotes⟩
        have hclosing : Closing b active id w (r.2, t) := by
          refine ⟨halias, hidle, hopen, hsearches, fun {other} hrefers => ?_⟩
          obtain ⟨_, htarget', hother⟩ := hrefers
          obtain rfl := Option.some.inj (htarget.symm.trans htarget')
          exact (hdenotes.knows other ((hkeeps.among htarget).mpr hother)).elim fun _ h => h
        refine hclosing.expanded hb hkeeps htrail fun hmarked => ?_
        simp [expandedType, hmarked]
    exact hends

end Check

end StaticTyping
