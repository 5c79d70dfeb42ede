import StaticTyping.Proofs.Aliases.Reported

/-! Two states side by side that came about in different orders. Some of their symbols stand for each
other, and only some names and declarations are compared. From there both sides may go on together:
what is made from then on stands for each other in the order in which it is made. -/

namespace StaticTyping

open Option ScopeStack SymbolTable

/-- Each symbol that the type mentions, at any depth, is as `R` says. -/
abbrev Ty.Mentions (R : SymbolId → Prop) (t : Ty) : Prop :=
  t.Everywhere fun x => ∀ id, x.symbol? = some id → R id

variable {R : SymbolId → Prop}

lemma Ty.mentions_of_forall (h : ∀ id, R id) (t : Ty) : t.Mentions R := by
  induction t using partsInduction with
  | h t ih => exact .intro (fun id _ => h id) ih

/-- Types still mirror each other under another pairing that keeps the pairs of what they mention. -/
lemma Ty.Mirrors.transfer {m m' : Pairing} {a b : Ty}
    (hparams : ∀ x y, m.params x y → m'.params x y) (hloose : m.loose → m'.loose)
    (ha : a.Mentions fun i => ∀ j, m.symbols i j → m'.symbols i j) (h : a.Mirrors m b) :
    a.Mirrors m' b := by
  induction a using partsInduction generalizing b with
  | h a ih =>
    have hall : ∀ {xs ys : List Ty}, (∀ x ∈ xs, x ∈ a.parts) → List.Forall₂ (Mirrors m) xs ys →
        List.Forall₂ (Mirrors m') xs ys := fun hxs h =>
      forall₂_imp_mem h fun x hx y _ hxy => ih x (hxs x hx) (ha.inside x (hxs x hx)) hxy
    have hsymbol : ∀ {i j : Option SymbolId}, (∀ id, i = some id → a.symbol? = some id) →
        Rel m.symbols i j → Rel m'.symbols i j := by
      intro i j hi h
      cases h with
      | none => exact .none
      | some h => exact .some (ha.here _ (hi _ rfl) _ h)
    cases h with
    | prim p => exact .prim p
    | bare h => exact .bare (hsymbol (fun _ h => h) h)
    | named h hargs => exact .named (hsymbol (fun _ h => h) h) (hall (fun _ hx => hx) hargs)
    | union h hr => exact .union (hall (fun _ hx => hx) h) (hr.imp_right fun h => ⟨hloose h.1, h.2⟩)
    | tuple h => exact .tuple (hall (fun _ hx => hx) h)
    | fn hps hresult =>
      exact .fn (hall (fun _ hx => .tail _ hx) hps) (ih _ (.head _) (ha.inside _ (.head _)) hresult)
    | param h => exact .param (hparams _ _ h)
    | error => exact .error
    | unknown => exact .unknown

/-- Symbols of one state that stand for symbols of another. -/
structure SymbolPairs where
  holds : SymbolId → SymbolId → Prop
  unique : Relator.BiUnique holds

namespace SymbolPairs

variable (π π' : SymbolPairs)

def Within (i : SymbolId) : Prop := ∀ j, π.holds i j → π'.holds i j

/-- The pairs of what there is at some time, and of all that is made from then on. -/
def openAt (a b : Nat) : SymbolPairs where
  holds i j := (π.holds i j ∧ i.index < a ∧ j.index < b) ∨ ∃ k, i = ⟨a + k⟩ ∧ j = ⟨b + k⟩
  unique := by
    have hnot (n k : Nat) : ¬ n + k < n := by omega
    constructor
    · rintro i j l (⟨h, hi, hl⟩ | ⟨k, rfl, rfl⟩) (⟨h', hj, hl'⟩ | ⟨k', rfl, hl'⟩)
      · exact π.unique.1 h h'
      · subst hl'
        exact absurd hl (hnot b k')
      · exact absurd hl' (hnot b k)
      · simpa using hl'
    · rintro i j l (⟨h, hi, hj⟩ | ⟨k, rfl, rfl⟩) (⟨h', hi', hl⟩ | ⟨k', hi', rfl⟩)
      · exact π.unique.2 h h'
      · subst hi'
        exact absurd hi (hnot a k')
      · exact absurd hi' (hnot a k)
      · simpa using hi'

def upTo (n : Nat) : SymbolPairs where
  holds i j := π.holds i j ∧ i.index < n
  unique := ⟨fun _ _ _ h h' => π.unique.1 h.1 h'.1, fun _ _ _ h h' => π.unique.2 h.1 h'.1⟩

/-- All pairs of several kinds, if any two with a symbol in common are of one kind. -/
def union {ι : Type} (πs : ι → SymbolPairs)
    (h : ∀ {k l i j i' j'}, (πs k).holds i j → (πs l).holds i' j' → i = i' ∨ j = j' →
      ∃ m, (πs m).holds i j ∧ (πs m).holds i' j') : SymbolPairs where
  holds i j := ∃ k, (πs k).holds i j
  unique := by
    constructor
    · rintro i i' j ⟨k, hk⟩ ⟨l, hl⟩
      obtain ⟨m, hm, hm'⟩ := h hk hl (.inr rfl)
      exact (πs m).unique.1 hm hm'
    · rintro i j j' ⟨k, hk⟩ ⟨l, hl⟩
      obtain ⟨m, hm, hm'⟩ := h hk hl (.inl rfl)
      exact (πs m).unique.2 hm hm'

end SymbolPairs

/-- What two states are compared on: some names of values, the symbols of some declarations, and the
members and variants of some symbols. All else that their symbols say is compared as well. -/
structure Region where
  values : String → Prop
  declared : StmtId → Prop
  full : SymbolId → Prop

variable {r : Region} {π : SymbolPairs} {s t : State} {E : TypeExpr → TypeExpr → Prop}

namespace Region

def whole : Region := ⟨fun _ => True, fun _ => True, fun _ => True⟩

/-- Two runs from states that are compared on a region put out the same. -/
def mirror (r : Region) (π : SymbolPairs) : Mirror where
  symbols := π.holds
  params := Eq
  loose := False
  symbols_unique := π.unique
  params_unique := biUnique_eq
  values := r.values
  declared := r.declared
  known _ := False
  full := r.full
  fixed _ := True
  kinds _ _ := True
  exact := True
  waiting := True
  output := Eq
  fixed_params _ := rfl
  exact_params _ h := h
  exact_strict _ h := h
  loose_fixed _ h := h.elim
  output_nil := rfl
  output_append h h' := by rw [h, h']
  output_perm h := h.elim
  output_report {f g} span hcode _ hmessage := by
    simp only [Finding.toDiagnostic, hcode, hmessage trivial]
  output_cycle _ _ _ := rfl

variable {r' : Region} {π' : SymbolPairs}

lemma mirror_context : (r.mirror π).Context Eq where
  unique := biUnique_eq
  fixed _ := rfl
  exact _ h := h

lemma transfer {E' : TypeExpr → TypeExpr → Prop} {f f' : Prop} {a b : Symbol}
    (h : a.Mirrors (r.mirror π) E f b) (hf : f' → f) (hplain : a.aliasTarget = none)
    (ha : a.Holds (π.Within π') (Ty.Mentions (π.Within π'))) :
    a.Mirrors (r'.mirror π') E' f' b := by
  have hty : ∀ {x y : Ty}, x.Mentions (π.Within π') → x.Mirrors (r.mirror π).toPairing y →
      x.Mirrors (r'.mirror π').toPairing y := fun hx h =>
    .transfer (m := (r.mirror π).toPairing) (fun _ _ h => h) (fun h => h) hx h
  have hsome : ∀ {i j : Option SymbolId}, (∀ id ∈ i, π.Within π' id) → Rel π.holds i j →
      Rel π'.holds i j := by
    intro i j hi h
    cases h with
    | none => exact .none
    | some h => exact .some (hi _ rfl _ h)
  refine ⟨h.kind, h.name, h.exactName, h.span, ?_, ?_, h.isMutable, h.isConst, h.isParameter,
    h.typeParams, fun hfull => ?_, hsome ha.owner h.owner, ?_, fun hfull => ?_, ?_⟩
  · rcases rel_cases h.ty with ⟨hx, hy⟩ | ⟨x, y, hx, hy, hxy⟩
    · rw [hx, hy]
      exact .none
    · rw [hx, hy]
      exact .some (hty (ha.ty x hx) hxy)
  · exact forall₂_imp_mem h.params fun x hx y _ hxy =>
      ⟨hxy.name, hty (ha.params x hx) hxy.ty, hxy.role, hxy.hasDefault, hxy.isMutable, hxy.span⟩
  · exact forall₂_imp_mem (h.members (hf hfull)) fun x hx y _ hxy =>
      ⟨hxy.name, hty (ha.members x hx).ty hxy.ty, hsome (ha.members x hx).method hxy.method⟩
  · exact forall₂_imp_mem h.payload fun x hx y _ hxy => hty (ha.payload x hx) hxy
  · exact forall₂_imp_mem (h.variants (hf hfull)) fun i hi j _ hij => ha.variants i hi j hij
  · have htarget := h.target
    rw [hplain] at htarget ⊢
    generalize b.aliasTarget = other at htarget
    cases htarget
    exact .none

lemma holds_of_forall (h : ∀ id, R id) (a : Symbol) : a.Holds R (Ty.Mentions R) where
  ty t _ := t.mentions_of_forall h
  params x _ := x.ty.mentions_of_forall h
  members x _ := ⟨x.ty.mentions_of_forall h, fun id _ => h id⟩
  payload t _ := t.mentions_of_forall h
  owner id _ := h id
  variants id _ := h id

/-- The states are the same for all that is compared, up to symbols that stand for each other. Both are
at top level, where nothing is narrowed and no function is being checked. -/
structure Matches (r : Region) (π : SymbolPairs) (s t : State) : Prop where
  within {i j : SymbolId} : π.holds i j → i.index < s.symbols.size ∧ j.index < t.symbols.size
  plain {i j : SymbolId} : π.holds i j → (s.symbols.get i).aliasTarget = none
  symbols {i j : SymbolId} : π.holds i j →
    (s.symbols.get i).Mirrors (r.mirror π) (fun _ _ => False) (r.full i) (t.symbols.get j)
  root : s.scopes.outer = [] ∧ t.scopes.outer = []
  values {name : String} : r.values name →
    Option.Rel π.holds (s.scopes.inner.values.lookup name) (t.scopes.inner.values.lookup name)
  calm (name : String) : s.scopes.inner.narrowed.lookup name = none ∧
    t.scopes.inner.narrowed.lookup name = none
  types (name : String) :
    Option.Rel π.holds (s.scopes.inner.types.lookup name) (t.scopes.inner.types.lookup name)
  contexts : s.contexts = [] ∧ t.contexts = []
  declarations {id : StmtId} : r.declared id →
    Option.Rel π.holds (s.declarations.lookup id) (t.declarations.lookup id)

end Region

/-- The state may stand beside itself. So whatever owns a symbol or was declared is there. -/
def State.Coherent (s : State) : Prop :=
  (Mirror.identity (fun _ => False) .any).States (Mirror.identity (fun _ => False) .any).Steady [Eq] s s

namespace Region.Matches

lemma states (h : r.Matches π s t) (hs : s.Coherent) :
    (r.mirror (π.openAt s.symbols.size t.symbols.size)).States E [Eq] s t where
  symbols {i j} hij := by
    rcases hij with ⟨hij, -, -⟩ | ⟨k, rfl, rfl⟩
    · refine transfer (h.symbols hij) (fun h => h) (h.plain hij) (holds_of_forall (fun i j hij => ?_) _)
      exact .inl ⟨hij, h.within hij⟩
    · -- What is not made yet reads as a symbol that says nothing.
      rw [get_of_not_lt (by simp), get_of_not_lt (by simp)]
      exact ⟨rfl, fun _ => rfl, fun _ => rfl, rfl, .none, .nil, rfl, rfl, rfl, .nil, fun _ => .nil,
        .none, .nil, fun _ => .nil, .none⟩
  bound {i j} hij := by
    rcases hij with ⟨-, hi, hj⟩ | ⟨k, rfl, rfl⟩
    · exact iff_of_true hi hj
    · exact iff_of_false (by simp) (by simp)
  next k := .inr ⟨k, rfl, rfl⟩
  owners := hs.owners
  noted := hs.noted
  scopes := by
    have hpaired : ∀ {i j}, π.holds i j →
        (π.openAt s.symbols.size t.symbols.size).holds i j := fun hij => .inl ⟨hij, h.within hij⟩
    simp only [frames, h.root.1, h.root.2]
    refine .root mirror_context ⟨fun hname => rel_imp (h.values hname) fun _ _ => hpaired, ?_, ?_⟩
    · intro name _
      rw [(h.calm name).1, (h.calm name).2]
      exact .none
    · rintro name _ rfl
      exact rel_imp (h.types name) fun i j hij =>
        ⟨hpaired hij, (h.within hij).1, trivial, fun _ => rfl, fun _ => rfl⟩
  contexts := by
    rw [h.contexts.1, h.contexts.2]
    exact .nil
  declarations hid := rel_imp (h.declarations hid) fun i j hij => .inl ⟨hij, h.within hij⟩
  known h := h.elim

end Region.Matches

/-- A state at top level that has no aliases. -/
structure State.Plain (s : State) : Prop where
  sound : s.Sound
  coherent : s.Coherent
  plain (i : SymbolId) : (s.symbols.get i).aliasTarget = none
  root : s.scopes.outer = []
  calm (name : String) : s.scopes.inner.narrowed.lookup name = none
  contexts : s.contexts = []

namespace Region.Matches

variable {a b : Nat}

lemma of_states (h : (r.mirror (π.openAt a b)).States E [Eq] s t) (hs : s.Plain)
    (hroot : t.scopes.outer = []) (hcalm : ∀ name, t.scopes.inner.narrowed.lookup name = none)
    (hcontexts : t.contexts = []) : r.Matches ((π.openAt a b).upTo s.symbols.size) s t := by
  have hscopes := h.scopes
  simp only [frames, hs.root, hroot] at hscopes
  have hframes : (r.mirror (π.openAt a b)).Frames r.values s.symbols Eq s.scopes.inner
      t.scopes.inner := by
    cases hscopes with
    | root _ hframes => exact hframes
  have hinner : s.scopes.inner.Holds (·.index < s.symbols.size) (Ty.Sound {} s.symbols.size) :=
    hs.sound.scopes _ (.head _)
  have hwithin : ∀ i : SymbolId, i.index < s.symbols.size →
      (π.openAt a b).Within ((π.openAt a b).upTo s.symbols.size) i := fun i hi j hij => ⟨hij, hi⟩
  have hrel : ∀ {x y : Option SymbolId}, (∀ i, x = some i → i.index < s.symbols.size) →
      Rel (π.openAt a b).holds x y →
      Rel ((π.openAt a b).upTo s.symbols.size).holds x y := by
    intro x y hx hxy
    cases hxy with
    | none => exact .none
    | some hij => exact .some ⟨hij, hx _ rfl⟩
  refine ⟨fun hij => ⟨hij.2, (h.bound hij.1).mp hij.2⟩, fun _ => hs.plain _, fun {i j} hij => ?_,
    ⟨hs.root, hroot⟩, fun hname => ?_, fun name => ⟨hs.calm name, hcalm name⟩, fun name => ?_,
    ⟨hs.contexts, hcontexts⟩, fun hid => ?_⟩
  · refine transfer (h.symbols hij.1) (fun h => h) (hs.plain i) ?_
    exact .mono (hs.sound.symbols _ (get_mem hij.2)) hwithin fun t ht =>
      ht.symbols.mono fun x hx id hid => hwithin id (hx id hid)
  · exact hrel (fun i hi => hinner.values _ (mem_of_lookup_eq_some hi)) (hframes.values hname)
  · refine hrel (fun i hi => hinner.types _ (mem_of_lookup_eq_some hi)) ?_
    exact rel_imp (hframes.types rfl) fun _ _ h => h.paired
  · exact hrel (fun i hi => (h.noted hi).1) (h.declarations hid)

end Region.Matches

end StaticTyping
