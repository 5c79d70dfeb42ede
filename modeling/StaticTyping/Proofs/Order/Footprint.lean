import StaticTyping.Proofs.Order.Naming
import StaticTyping.Proofs.Order.Pairs
import StaticTyping.Proofs.Order.Writing

/-! Footprints. What declarations at top level change of what there was before is little, and different
declarations change different things. So two states that are the same for one declaration stay so while
others are dealt with, on either side and in any order. -/

namespace StaticTyping

/-- What work changes: members and variants of some symbols, some names of values, and the symbols of
some declarations. -/
structure Footprint where
  owns : SymbolId → Prop
  names : Multiset String
  declares : StmtId → Prop

/-- Of the first `n` symbols, of names and of declarations nothing changes outside the footprint. -/
structure Footprint.Touches (f : Footprint) (n : Nat) (s t : State) : Prop where
  size : s.symbols.size ≤ t.symbols.size
  symbols {id : SymbolId} : id.index < n → t.symbols.get id = { s.symbols.get id with
      members := (t.symbols.get id).members, variants := (t.symbols.get id).variants }
  untouched {id : SymbolId} : id.index < n → ¬f.owns id → t.symbols.get id = s.symbols.get id
  declarations {id : StmtId} : ¬f.declares id → t.declarations.lookup id = s.declarations.lookup id
  introduces : Outline.Introduces f.names s.outline t.outline

def Footprint.all (f : StmtId → Footprint) (xs : List StmtId) : Footprint where
  owns i := ∃ x ∈ xs, (f x).owns i
  names := (xs.map fun x => (f x).names).sum
  declares id := ∃ x ∈ xs, (f x).declares id

namespace Footprint.Touches

variable {f g : Footprint} {n m : Nat} {s t u : State} {name : String}

lemma refl (f : Footprint) (n : Nat) (s : State) : f.Touches n s s :=
  ⟨le_rfl, fun _ => rfl, fun _ _ => rfl, fun _ => rfl, .refl _⟩

lemma trans (hst : f.Touches n s t) (htu : f.Touches n t u) : f.Touches n s u where
  size := hst.size.trans htu.size
  symbols hid := by
    have hfirst := hst.symbols hid
    have hsecond := htu.symbols hid
    rw [hfirst] at hsecond
    exact hsecond
  untouched hid howns := (htu.untouched hid howns).trans (hst.untouched hid howns)
  declarations hid := (htu.declarations hid).trans (hst.declarations hid)
  introduces := hst.introduces.trans htu.introduces

lemma mono (h : f.Touches n s t) (howns : ∀ id, f.owns id → g.owns id)
    (hnames : ∀ name ∈ f.names, name ∈ g.names) (hdeclares : ∀ id, f.declares id → g.declares id)
    (hmn : m ≤ n) : g.Touches m s t where
  size := h.size
  symbols hid := h.symbols (hid.trans_le hmn)
  untouched hid hnot := h.untouched (hid.trans_le hmn) fun howned => hnot (howns _ howned)
  declarations hid := h.declarations fun hdeclared => hid (hdeclares _ hdeclared)
  introduces := h.introduces.mono hnames

lemma one {f : StmtId → Footprint} {x : StmtId} {xs : List StmtId} (hx : x ∈ xs)
    (h : (f x).Touches n s t) (hmn : m ≤ n) : (Footprint.all f xs).Touches m s t :=
  h.mono (fun _ h => ⟨x, hx, h⟩) (fun _ h => mem_sum_map.mpr ⟨x, hx, h⟩) (fun _ h => ⟨x, hx, h⟩) hmn

lemma all_mono {f : StmtId → Footprint} {xs ys : List StmtId} (h : (Footprint.all f xs).Touches n s t)
    (hsub : ∀ x ∈ xs, x ∈ ys) : (Footprint.all f ys).Touches n s t := by
  refine h.mono ?_ (fun name hname => ?_) ?_ le_rfl
  · rintro id ⟨x, hx, howns⟩
    exact ⟨x, hsub x hx, howns⟩
  · obtain ⟨x, hx, hmem⟩ := mem_sum_map.mp hname
    exact mem_sum_map.mpr ⟨x, hsub x hx, hmem⟩
  · rintro id ⟨x, hx, hdeclares⟩
    exact ⟨x, hsub x hx, hdeclares⟩

lemma lookupValue (h : f.Touches n s t) (hname : name ∉ f.names) :
    t.scopes.inner.values.lookup name = s.scopes.inner.values.lookup name :=
  h.introduces.values hname

lemma types (h : f.Touches n s t) : t.scopes.inner.types = s.scopes.inner.types :=
  h.introduces.types

lemma root (h : f.Touches n s t) (hs : s.scopes.outer = []) : t.scopes.outer = [] := by
  have houter : KeepsAll s.scopes.outer t.scopes.outer := h.introduces.outer
  rw [hs] at houter
  exact List.forall₂_nil_left_iff.mp houter

lemma calm (h : f.Touches n s t) (hs : s.scopes.inner.narrowed.lookup name = none) :
    t.scopes.inner.narrowed.lookup name = none := by
  refine Option.eq_none_iff_forall_ne_some.mpr fun ty hty => ?_
  have hbefore := h.introduces.narrowed name ty hty
  rw [show s.outline.scopes = s.scopes from rfl, hs] at hbefore
  exact absurd hbefore (by simp)

lemma contexts (h : f.Touches n s t) (hs : s.contexts = []) : t.contexts = [] := by
  have hlength : t.contexts.length = s.contexts.length := h.introduces.contexts
  rw [hs] at hlength
  exact List.length_eq_zero_iff.mp hlength

end Footprint.Touches

/-- The footprint leaves alone what is compared in the region. -/
structure Region.Spared (r : Region) (π : SymbolPairs) (f g : Footprint) : Prop where
  full {i j : SymbolId} : π.holds i j → r.full i → ¬f.owns i ∧ ¬g.owns j
  values {name : String} : r.values name → name ∉ f.names ∧ name ∉ g.names
  declared {id : StmtId} : r.declared id → ¬f.declares id ∧ ¬g.declares id

variable {π : SymbolPairs}

lemma Region.Spared.all {r : Region} {f g : StmtId → Footprint}
    {xs ys : List StmtId} (hf : ∀ x ∈ xs, r.Spared π (f x) (g x))
    (hg : ∀ y ∈ ys, r.Spared π (f y) (g y)) : r.Spared π (.all f xs) (.all g ys) where
  full hij hfull := by
    refine ⟨?_, ?_⟩
    · rintro ⟨x, hx, howns⟩
      exact ((hf x hx).full hij hfull).1 howns
    · rintro ⟨y, hy, howns⟩
      exact ((hg y hy).full hij hfull).2 howns
  values hname := by
    refine ⟨fun hmem => ?_, fun hmem => ?_⟩
    · obtain ⟨x, hx, hmem⟩ := mem_sum_map.mp hmem
      exact ((hf x hx).values hname).1 hmem
    · obtain ⟨y, hy, hmem⟩ := mem_sum_map.mp hmem
      exact ((hg y hy).values hname).2 hmem
  declared hid := by
    refine ⟨?_, ?_⟩
    · rintro ⟨x, hx, hdeclares⟩
      exact ((hf x hx).declared hid).1 hdeclares
    · rintro ⟨y, hy, hdeclares⟩
      exact ((hg y hy).declared hid).2 hdeclares

/-- States that are the same in a region are so after work elsewhere, on either side. -/
lemma Region.Matches.frame {r : Region} {s t s' t' : State} {f g : Footprint}
    {n m : Nat} (h : r.Matches π s t) (hs : f.Touches n s s') (ht : g.Touches m t t')
    (hbound : ∀ i j, π.holds i j → i.index < n ∧ j.index < m) (hspared : r.Spared π f g) :
    r.Matches π s' t' where
  within hij := ⟨(h.within hij).1.trans_le hs.size, (h.within hij).2.trans_le ht.size⟩
  plain hij := by
    rw [hs.symbols (hbound _ _ hij).1]
    exact h.plain hij
  symbols {i j} hij := by
    have hmirrors := h.symbols hij
    obtain ⟨hi, hj⟩ := hbound i j hij
    by_cases hfull : r.full i
    · obtain ⟨howns, howns'⟩ := hspared.full hij hfull
      rw [hs.untouched hi howns, ht.untouched hj howns']
      exact hmirrors
    · -- Members and variants are not compared, and nothing else changes.
      rw [hs.symbols hi, ht.symbols hj]
      exact { hmirrors with members := fun h => absurd h hfull, variants := fun h => absurd h hfull }
  root := ⟨hs.root h.root.1, ht.root h.root.2⟩
  values hname := by
    obtain ⟨hf, hg⟩ := hspared.values hname
    rw [hs.lookupValue hf, ht.lookupValue hg]
    exact h.values hname
  calm name := ⟨hs.calm (h.calm name).1, ht.calm (h.calm name).2⟩
  types name := by
    rw [hs.types, ht.types]
    exact h.types name
  contexts := ⟨hs.contexts h.contexts.1, ht.contexts h.contexts.2⟩
  declarations hid := by
    obtain ⟨hf, hg⟩ := hspared.declared hid
    rw [hs.declarations hf, ht.declarations hg]
    exact h.declarations hid

end StaticTyping
