import StaticTyping.Proofs.Types.Assignability
import StaticTyping.Proofs.Types.Rearranged
import StaticTyping.Rule.Aggregate
import StaticTyping.Rule.Callee
import StaticTyping.Rule.Literal

/-! Types that differ only in which symbols stand behind their names, in how type parameters are
called and, if need be, in the order of the members of unions. Whatever the checker asks about types,
it gets the same answer for both. -/

namespace StaticTyping

open Ty Substitution List Rule

lemma biUnique_eq {α : Type} : Relator.BiUnique (Eq : α → α → Prop) :=
  ⟨fun _ _ _ h h' => h.trans h'.symm, fun _ _ _ h h' => h.symm.trans h'⟩

/-- Which symbols, and which names of type parameters, stand for each other on two sides. -/
structure Pairing where
  symbols : SymbolId → SymbolId → Prop
  params : String → String → Prop
  /-- The members of unions may stand in another order. -/
  loose : Prop
  symbols_unique : Relator.BiUnique symbols
  params_unique : Relator.BiUnique params

def Pairing.swap (m : Pairing) : Pairing where
  symbols i j := m.symbols j i
  params a b := m.params b a
  loose := m.loose
  symbols_unique :=
    ⟨fun _ _ _ h h' => m.symbols_unique.2 h h', fun _ _ _ h h' => m.symbols_unique.1 h h'⟩
  params_unique :=
    ⟨fun _ _ _ h h' => m.params_unique.2 h h', fun _ _ _ h h' => m.params_unique.1 h h'⟩

variable {α β : Type} {r : α → β → Prop} {m : Pairing} {xs ys : List Ty} {a b : Ty}
  {σ τ : Substitution}

section Lists

lemma forall₂_transport {p : α → α → Prop} {q : β → β → Prop} {xs ys : List α} {xs' ys' : List β}
    (hxs : Forall₂ r xs xs') (hys : Forall₂ r ys ys') (hxy : Forall₂ p xs ys)
    (h : ∀ x ∈ xs, ∀ y ∈ ys, ∀ x' y', r x x' → r y y' → p x y → q x' y') : Forall₂ q xs' ys' := by
  induction hxy generalizing xs' ys' with
  | nil =>
    cases hxs
    cases hys
    exact .nil
  | cons hp _ ih =>
    obtain ⟨x', xs', hx, hxs', rfl⟩ := forall₂_cons_left_iff.mp hxs
    obtain ⟨y', ys', hy, hys', rfl⟩ := forall₂_cons_left_iff.mp hys
    refine .cons (h _ (.head _) _ (.head _) _ _ hx hy hp) (ih hxs' hys' ?_)
    exact fun x hx y hy => h x (.tail _ hx) y (.tail _ hy)

variable {xs : List α} {ys : List β} (h : Forall₂ r xs ys) {p : α → Bool} {q : β → Bool}

include h

lemma forall₂_mem_left {x : α} (hx : x ∈ xs) : ∃ y ∈ ys, r x y := by
  induction h with
  | nil => simp at hx
  | cons hab _ ih =>
    rcases mem_cons.mp hx with rfl | hx
    · exact ⟨_, .head _, hab⟩
    · obtain ⟨y, hy, hxy⟩ := ih hx
      exact ⟨y, .tail _ hy, hxy⟩

lemma forall₂_mem_right {y : β} (hy : y ∈ ys) : ∃ x ∈ xs, r x y :=
  forall₂_mem_left (r := flip r) h.flip hy

lemma forall₂_getElem? (n : Nat) : Option.Rel r xs[n]? ys[n]? := by
  induction h generalizing n with
  | nil => exact .none
  | cons hab _ ih =>
    cases n with
    | zero => exact .some hab
    | succ n => exact ih n

lemma forall₂_find? (hpq : ∀ a b, r a b → p a = q b) : Option.Rel r (xs.find? p) (ys.find? q) := by
  induction h with
  | nil => exact .none
  | cons hab _ ih =>
    simp only [find?_cons, hpq _ _ hab]
    split
    · exact .some hab
    · exact ih

lemma forall₂_any (hpq : ∀ a b, r a b → p a = q b) : xs.any p = ys.any q := by
  induction h with
  | nil => rfl
  | cons hab _ ih => simp only [any_cons, hpq _ _ hab, ih]

lemma rel_zip {γ δ : Type*} {r' : γ → δ → Prop} {us : List γ} {vs : List δ}
    (h' : Forall₂ r' us vs) :
    Forall₂ (fun x y => r x.1 y.1 ∧ r' x.2 y.2) (xs.zip us) (ys.zip vs) := by
  induction h generalizing us vs with
  | nil => exact .nil
  | cons hab _ ih =>
    cases h' with
    | nil => exact .nil
    | cons hcd hrest => exact .cons ⟨hab, hcd⟩ (ih hrest)

lemma forall₂_isEmpty : xs.isEmpty = ys.isEmpty := by
  cases h <;> rfl

end Lists

section Options

variable {x : Option α} {y : Option β} {a : α} {b : β}

lemma rel_cases (h : Option.Rel r x y) :
    x = none ∧ y = none ∨ ∃ a b, x = some a ∧ y = some b ∧ r a b := by
  cases h with
  | none => exact .inl ⟨rfl, rfl⟩
  | some h => exact .inr ⟨_, _, rfl, rfl, h⟩

@[elab_as_elim]
lemma rel_elim {motive : Option α → Option β → Prop} (h : Option.Rel r x y)
    (hnone : motive none none) (hsome : ∀ a b, r a b → motive (some a) (some b)) : motive x y := by
  cases h with
  | none => exact hnone
  | some h => exact hsome _ _ h

lemma rel_imp {s : α → β → Prop} (h : Option.Rel r x y) (hrs : ∀ a b, r a b → s a b) :
    Option.Rel s x y := by
  cases h with
  | none => exact .none
  | some h => exact .some (hrs _ _ h)

lemma rel_bind {γ δ : Type*} {s : γ → δ → Prop} {f : α → Option γ} {g : β → Option δ}
    (h : Option.Rel r x y) (hfg : ∀ a b, r a b → Option.Rel s (f a) (g b)) :
    Option.Rel s (x.bind f) (y.bind g) := by
  cases h with
  | none => exact .none
  | some h => exact hfg _ _ h

lemma rel_none (h : Option.Rel r none y) : y = none := by
  cases h
  rfl

lemma rel_some (h : Option.Rel r (some a) y) : ∃ b, y = some b ∧ r a b := by
  cases h with
  | some h => exact ⟨_, rfl, h⟩

lemma rel_eq_some_iff (hr : Relator.BiUnique r) (h : Option.Rel r x y) (hab : r a b) :
    x = some a ↔ y = some b := by
  cases h with
  | none => simp
  | some h => simpa only [Option.some.injEq] using Relator.rel_eq hr h hab

lemma rel_isSome (h : Option.Rel r x y) : x.isSome = y.isSome := by
  cases h <;> rfl

lemma rel_getD (h : Option.Rel r x y) (hab : r a b) : r (x.getD a) (y.getD b) := by
  cases h with
  | none => exact hab
  | some h => exact h

end Options

/-- The same members, in the same order unless that may differ. -/
def Pairing.Rearranges (m : Pairing) (xs ys : List Ty) : Prop :=
  xs = ys ∨ m.loose ∧ Rearranged Apart xs ys

namespace Pairing.Rearranges

variable {zs : List Ty}

protected lemma refl (m : Pairing) (xs : List Ty) : m.Rearranges xs xs := .inl rfl

variable (h : m.Rearranges xs ys)

include h

lemma trans (h' : m.Rearranges ys zs) : m.Rearranges xs zs := by
  rcases h with rfl | ⟨hm, h⟩
  · exact h'
  · rcases h' with rfl | ⟨-, h'⟩
    · exact .inr ⟨hm, h⟩
    · exact .inr ⟨hm, .trans h h'⟩

lemma perm : xs.Perm ys := by
  rcases h with rfl | ⟨-, h⟩
  · exact .refl xs
  · exact h.perm

lemma imp {f : List Ty → List Ty} (hf : Rearranged Apart xs ys → Rearranged Apart (f xs) (f ys)) :
    m.Rearranges (f xs) (f ys) := by
  rcases h with rfl | ⟨hm, h⟩
  · exact .inl rfl
  · exact .inr ⟨hm, hf h⟩

lemma eq_of_strict (hm : ¬m.loose) : xs = ys := h.resolve_right fun h => hm h.1

end Pairing.Rearranges

namespace Ty

/-- The types differ at most in the symbols behind names, in the names of type parameters and in the
order of the members of unions. -/
inductive Mirrors (m : Pairing) : Ty → Ty → Prop
  | prim (p : Primitive) : Mirrors m (.prim p) (.prim p)
  | bare {name : String} {i j : Option SymbolId} {aliasable : Bool}
      (hsymbol : Option.Rel m.symbols i j) :
      Mirrors m (.named ⟨name, i, aliasable⟩ none) (.named ⟨name, j, aliasable⟩ none)
  | named {name : String} {i j : Option SymbolId} {aliasable : Bool} {xs ys : List Ty}
      (hsymbol : Option.Rel m.symbols i j) (hargs : List.Forall₂ (Mirrors m) xs ys) :
      Mirrors m (.named ⟨name, i, aliasable⟩ (some xs)) (.named ⟨name, j, aliasable⟩ (some ys))
  | union {xs ys zs : List Ty} (h : List.Forall₂ (Mirrors m) xs ys) (hr : m.Rearranges ys zs) :
      Mirrors m (.union xs) (.union zs)
  | tuple {xs ys : List Ty} (h : List.Forall₂ (Mirrors m) xs ys) : Mirrors m (.tuple xs) (.tuple ys)
  | fn {ps qs : List Ty} {r t : Ty} (hparams : List.Forall₂ (Mirrors m) ps qs)
      (hresult : Mirrors m r t) : Mirrors m (.fn ps r) (.fn qs t)
  | param {a b : String} (h : m.params a b) : Mirrors m (.param a) (.param b)
  | error : Mirrors m .error .error
  | unknown : Mirrors m .unknown .unknown

def Matched (m : Pairing) (xs zs : List Ty) : Prop :=
  ∃ ys, List.Forall₂ (Mirrors m) xs ys ∧ m.Rearranges ys zs

namespace Matched

variable {us vs : List Ty}

lemma of_forall₂ (h : Forall₂ (Mirrors m) xs ys) : Matched m xs ys := ⟨ys, h, .refl m ys⟩

variable (h : Matched m xs ys)

include h

lemma length_eq : xs.length = ys.length := by
  obtain ⟨_, h, hr⟩ := h
  exact h.length_eq.trans hr.perm.length_eq

lemma mem_left {x : Ty} (hx : x ∈ xs) : ∃ y ∈ ys, x.Mirrors m y := by
  obtain ⟨_, h, hr⟩ := h
  obtain ⟨y, hy, hxy⟩ := forall₂_mem_left h hx
  exact ⟨y, hr.perm.mem_iff.mp hy, hxy⟩

lemma mem_right {y : Ty} (hy : y ∈ ys) : ∃ x ∈ xs, x.Mirrors m y := by
  obtain ⟨_, h, hr⟩ := h
  exact forall₂_mem_right h (hr.perm.mem_iff.mpr hy)

lemma rearranged (hr : m.Rearranges ys us) : Matched m xs us := by
  obtain ⟨zs, h, hzs⟩ := h
  exact ⟨zs, h, hzs.trans hr⟩

lemma append (h' : Matched m us vs) : Matched m (xs ++ us) (ys ++ vs) := by
  obtain ⟨zs, h, hr⟩ := h
  obtain ⟨ws, h', hr'⟩ := h'
  refine ⟨zs ++ ws, rel_append h h', ?_⟩
  have hleft : m.Rearranges (zs ++ ws) (ys ++ ws) :=
    hr.imp (f := (· ++ ws)) fun h => h.append_right ws
  have hright : m.Rearranges (ys ++ ws) (ys ++ vs) :=
    hr'.imp (f := (ys ++ ·)) fun h => h.append_left ys
  exact hleft.trans hright

lemma all_eq {p : Ty → Bool}
    (hp : ∀ x ∈ xs, ∀ y, x.Mirrors m y → p x = p y) : xs.all p = ys.all p := by
  rw [Bool.eq_iff_iff, all_eq_true, all_eq_true]
  constructor
  · intro hall y hy
    obtain ⟨x, hx, hxy⟩ := h.mem_right hy
    exact hp x hx y hxy ▸ hall x hx
  · intro hall x hx
    obtain ⟨y, hy, hxy⟩ := h.mem_left hx
    exact (hp x hx y hxy).trans (hall y hy)

end Matched

lemma allAliasable_eq_all (ts : List Ty) : allAliasable ts = ts.all isAliasable := by
  induction ts with
  | nil => rfl
  | cons t ts ih => simp only [allAliasable, all_cons, ih]

lemma allTruthy_eq_all (ts : List Ty) : allTruthy ts = ts.all isTruthy := by
  induction ts with
  | nil => rfl
  | cons t ts ih => simp only [allTruthy, all_cons, ih]

namespace Mirrors

variable {a' b' : Ty}

/-- Types that are alike stay so on the other side, if that holds of the types directly inside, both
ways round. -/
lemma alike (hab : Alike a b) (ha : a.Mirrors m a') (hb : b.Mirrors m b')
    (h : ∀ x ∈ a.parts, ∀ y ∈ b.parts, ∀ x' y', x.Mirrors m x' → y.Mirrors m y' →
      same x y → same x' y')
    (hback : ∀ x ∈ a.parts, ∀ y ∈ b.parts, ∀ x' y', x.Mirrors m x' → y.Mirrors m y' →
      same y x → same y' x') : Alike a' b' := by
  cases hab with
  | prim | error | unknown =>
    cases ha
    cases hb
    constructor
  | bare hname =>
    cases ha
    cases hb
    exact .bare hname
  | named hname hargs =>
    cases ha with
    | named _ hxs =>
      cases hb with
      | named _ hys => exact .named hname (forall₂_transport hxs hys hargs h)
  | union hlength hcover =>
    cases ha with
    | union hxs hxr =>
      cases hb with
      | union hys hyr =>
        have hxs : Matched m _ _ := ⟨_, hxs, hxr⟩
        have hys : Matched m _ _ := ⟨_, hys, hyr⟩
        refine .union (by rw [← hxs.length_eq, ← hys.length_eq, hlength]) fun x' hx' => ?_
        obtain ⟨x, hx, hxx⟩ := hxs.mem_right hx'
        obtain ⟨y, hy, hyx⟩ := hcover x hx
        obtain ⟨y', hy', hyy⟩ := hys.mem_left hy
        exact ⟨y', hy', hback x hx y hy x' y' hxx hyy hyx⟩
  | tuple helements =>
    cases ha with
    | tuple hxs =>
      cases hb with
      | tuple hys => exact .tuple (forall₂_transport hxs hys helements h)
  | fn hparams hresult =>
    cases ha with
    | fn hps hr =>
      cases hb with
      | fn hqs ht =>
        refine .fn (forall₂_transport hps hqs hparams ?_) (h _ (.head _) _ (.head _) _ _ hr ht hresult)
        exact fun x hx y hy => h x (.tail _ hx) y (.tail _ hy)
  | param name =>
    cases ha with
    | param ha =>
      cases hb with
      | param hb =>
        obtain rfl := m.params_unique.2 ha hb
        exact .param _

lemma same_of_same (ha : a.Mirrors m a') (hb : b.Mirrors m b') :
    (same a b → same a' b') ∧ (same b a → same b' a') := by
  induction a using partsInduction generalizing b a' b' with
  | h a ih =>
    refine ⟨fun h => ?_, fun h => ?_⟩
    · refine same_iff_alike.mpr (alike (same_iff_alike.mp h) ha hb ?_ ?_)
      · exact fun x hx y _ x' y' hxx hyy => (ih x hx hxx hyy).1
      · exact fun x hx y _ x' y' hxx hyy => (ih x hx hxx hyy).2
    · refine same_iff_alike.mpr (alike (same_iff_alike.mp h) hb ha ?_ ?_)
      · exact fun y _ x hx y' x' hyy hxx => (ih x hx hxx hyy).2
      · exact fun y _ x hx y' x' hyy hxx => (ih x hx hxx hyy).1

variable (h : a.Mirrors m b) {accept : Primitive → Bool}

include h

lemma outline? : a.outline? = b.outline? := by
  cases h <;> rfl

lemma isInert : a.isInert = b.isInert := by
  cases h <;> rfl

lemma primitive? : a.primitive? = b.primitive? := by
  cases h <;> rfl

lemma mem_parts {x : Ty} (hx : x ∈ a.parts) : ∃ y ∈ b.parts, x.Mirrors m y := by
  cases h with
  | named _ hargs => exact forall₂_mem_left hargs hx
  | union h hr => exact Matched.mem_left ⟨_, h, hr⟩ hx
  | tuple h => exact forall₂_mem_left h hx
  | fn hparams hresult =>
    rcases mem_cons.mp hx with rfl | hx
    · exact ⟨_, .head _, hresult⟩
    · obtain ⟨y, hy, hxy⟩ := forall₂_mem_left hparams hx
      exact ⟨y, .tail _ hy, hxy⟩
  | _ => exact absurd hx not_mem_nil

lemma rigid (hb : b.Rigid) : a.Rigid := by
  induction a using partsInduction generalizing b with
  | h a ih =>
    refine .intro (h.outline? ▸ hb.here) fun x hx => ?_
    obtain ⟨y, hy, hxy⟩ := h.mem_parts hx
    exact ih x hx hxy (hb.inside y hy)

omit h in
lemma apart (ha : a.Mirrors m a') (hb : b.Mirrors m b') (h : Apart a' b') : Apart a b where
  integers := by
    rw [ha.primitive?, hb.primitive?]
    exact h.integers
  floats := by
    rw [ha.primitive?, hb.primitive?]
    exact h.floats
  told := by
    cases h.told with
    | left h => exact .left (ha.isInert.trans h)
    | right h => exact .right (hb.isInert.trans h)
    | outlines ho ho' hne => exact .outlines (ha.outline?.trans ho) (hb.outline?.trans ho') hne
    | rigid hra hrb hne hne' =>
      refine .rigid (ha.rigid hra) (hb.rigid hrb) ?_ ?_
      · exact Bool.eq_false_iff.mpr fun hsame => by simp [(same_of_same ha hb).1 hsame] at hne
      · exact Bool.eq_false_iff.mpr fun hsame => by simp [(same_of_same ha hb).2 hsame] at hne'

lemma swap : b.Mirrors m.swap a := by
  induction a using partsInduction generalizing b with
  | h a ih =>
    have hall : ∀ {xs ys : List Ty}, (∀ x ∈ xs, x ∈ a.parts) → Forall₂ (Mirrors m) xs ys →
        Forall₂ (Mirrors m.swap) ys xs := by
      intro xs ys hxs h
      exact (forall₂_imp_mem (s := flip (Mirrors m.swap)) h fun x hx y _ hxy =>
        ih x (hxs x hx) hxy).flip
    have hsymbol : ∀ {i j : Option SymbolId}, Option.Rel m.symbols i j →
        Option.Rel m.swap.symbols j i := by
      intro i j h
      cases h with
      | some h => exact .some h
      | none => exact .none
    cases h with
    | prim p => exact .prim p
    | bare h => exact .bare (hsymbol h)
    | named h hargs => exact .named (hsymbol h) (hall (fun _ hx => hx) hargs)
    | union h hr =>
      rcases hr with rfl | ⟨hm, hr⟩
      · exact .union (hall (fun _ hx => hx) h) (.refl _ _)
      · obtain ⟨ws, hws, hzs⟩ := hr.pull (R := Mirrors m) (Q := Apart) (fun _ _ _ _ => apart) h
        refine .union (hall (fun x hx => hws.perm.mem_iff.mpr hx) hzs) ?_
        exact .inr ⟨hm, hws.symm fun _ _ => .symm⟩
    | tuple h => exact .tuple (hall (fun _ hx => hx) h)
    | fn hparams hresult =>
      exact .fn (hall (fun _ hx => .tail _ hx) hparams) (ih _ (.head _) hresult)
    | param h => exact .param h
    | error => exact .error
    | unknown => exact .unknown

omit h

lemma beq_eq (ha : a.Mirrors m a') (hb : b.Mirrors m b') : (a == b) = (a' == b') :=
  Bool.eq_iff_iff.mpr ⟨(same_of_same ha hb).1, (same_of_same ha.swap hb.swap).1⟩

lemma isAbsorbing (h : a.Mirrors m b) : a.isAbsorbing = b.isAbsorbing := by
  cases h <;> rfl

lemma fits (hab : Fits a b) (ha : a.Mirrors m a') (hb : b.Mirrors m b')
    (h : ∀ x ∈ a.parts, ∀ y ∈ b.parts, ∀ x' y', x.Mirrors m x' → y.Mirrors m y' →
      (assignable x y → assignable x' y') ∧ (assignable y x → assignable y' x')) : Fits a' b' := by
  have hone := fun x hx y hy x' y' hxx hyy => (h x hx y hy x' y' hxx hyy).1
  cases hab with
  | absorbed h => exact .absorbed (ha.isAbsorbing ▸ h)
  | absorbing h => exact .absorbing (hb.isAbsorbing ▸ h)
  | bareLeft hname =>
    cases ha
    cases hb <;> exact .bareLeft hname
  | bareRight hname =>
    cases hb
    cases ha <;> exact .bareRight hname
  | matching hab =>
    cases hab with
    | prim p =>
      cases ha
      cases hb
      exact .matching (.prim p)
    | bare hname =>
      cases ha
      cases hb
      exact .matching (.bare hname)
    | named hname hargs =>
      cases ha with
      | named _ hxs =>
        cases hb with
        | named _ hys => exact .matching (.named hname (forall₂_transport hxs hys hargs hone))
    | tuple helements =>
      cases ha with
      | tuple hxs =>
        cases hb with
        | tuple hys => exact .matching (.tuple (forall₂_transport hxs hys helements hone))
    | fn hparams hresult =>
      cases ha with
      | fn hps hr =>
        cases hb with
        | fn hqs ht =>
          refine .matching (.fn (forall₂_transport hqs hps hparams ?_) ?_)
          · exact fun y hy x hx y' x' hyy hxx =>
              (h x (.tail _ hx) y (.tail _ hy) x' y' hxx hyy).2
          · exact hone _ (.head _) _ (.head _) _ _ hr ht hresult

lemma assignable_of_assignable {a b a' b' : Ty} (ha : a.Mirrors m a') (hb : b.Mirrors m b')
    (h : assignable a b) : assignable a' b' := by
  rcases cases_of_assignable h with h | h | ⟨xs, rfl, hxs⟩ | ⟨ys, rfl, y, hy, hay⟩
  · exact assignable_of_same ((same_of_same ha hb).1 h)
  · refine (fits h ha hb fun x hx y hy x' y' hxx hyy => ?_).assignable
    have := sizeOf_lt_of_mem_parts hx
    have := sizeOf_lt_of_mem_parts hy
    exact ⟨assignable_of_assignable hxx hyy, assignable_of_assignable hyy hxx⟩
  · cases ha with
    | @union _ _ xs' hxs' hr =>
      refine assignable_of_forall fun x' hx' => ?_
      obtain ⟨x, hx, hxx⟩ := Matched.mem_right ⟨_, hxs', hr⟩ hx'
      have := sizeOf_lt_of_mem_parts (t := .union xs) hx
      exact assignable_of_assignable hxx hb (hxs x hx)
  · cases hb with
    | @union _ _ ys' hys' hr =>
      obtain ⟨y', hy', hyy⟩ := Matched.mem_left ⟨_, hys', hr⟩ hy
      have := sizeOf_lt_of_mem_parts (t := .union ys) hy
      exact assignable_of_mem hy' (assignable_of_assignable ha hyy hay)
termination_by sizeOf a + sizeOf b

lemma assignable_eq (ha : a.Mirrors m a') (hb : b.Mirrors m b') :
    a.assignable b = a'.assignable b' := by
  rw [Bool.eq_iff_iff]
  exact ⟨assignable_of_assignable ha hb, assignable_of_assignable ha.swap hb.swap⟩

section

variable (h : a.Mirrors m b)

include h

lemma isError : a.isError = b.isError := by
  cases h <;> rfl

lemma isNull : a.isNull = b.isNull := by
  cases h <;> rfl

lemma isString : a.isString = b.isString := by
  cases h <;> rfl

lemma isInteger : a.isInteger = b.isInteger := by
  cases h <;> rfl

lemma isNumeric : a.isNumeric = b.isNumeric := by
  cases h <;> rfl

lemma isNamed (name : String) : a.isNamed name = b.isNamed name := by
  cases h <;> rfl

lemma isAliasable : a.isAliasable = b.isAliasable := by
  induction a using partsInduction generalizing b with
  | h a ih =>
    cases h with
    | union h hr =>
      rw [isAliasable, isAliasable, allAliasable_eq_all, allAliasable_eq_all]
      exact Matched.all_eq ⟨_, h, hr⟩ fun x hx y hxy => ih x hx hxy
    | _ => rfl

lemma isTruthy : a.isTruthy = b.isTruthy := by
  induction a using partsInduction generalizing b with
  | h a ih =>
    cases h with
    | union h hr =>
      rw [isTruthy, isTruthy, allTruthy_eq_all, allTruthy_eq_all]
      exact Matched.all_eq ⟨_, h, hr⟩ fun x hx y hxy => ih x hx hxy
    | _ => rfl

lemma array : (array a).Mirrors m (array b) := .named .none (.cons h .nil)

lemma map (h' : a'.Mirrors m b') : (map a a').Mirrors m (map b b') :=
  .named .none (.cons h (.cons h' .nil))

end

lemma bareType {i j : Option SymbolId} (h : Option.Rel m.symbols i j) (name : String) :
    (Ty.bare name i).Mirrors m (Ty.bare name j) :=
  .bare h

lemma arrayElement? (h : a.Mirrors m b) :
    Option.Rel (Mirrors m) a.arrayElement? b.arrayElement? := by
  cases h with
  | bare _ =>
    simp only [arrayElement?]
    split
    · exact .some .unknown
    · exact .none
  | named _ hargs =>
    simp only [arrayElement?]
    split
    · exact .some (rel_getD (forall₂_getElem? hargs 0) .unknown)
    · exact .none
  | _ => exact .none

lemma mapEntry? (h : a.Mirrors m b) :
    Option.Rel (fun x y => x.1.Mirrors m y.1 ∧ x.2.Mirrors m y.2) a.mapEntry? b.mapEntry? := by
  cases h with
  | bare _ =>
    simp only [ mapEntry?]
    split
    · exact .some ⟨.unknown, .unknown⟩
    · exact .none
  | named _ hargs =>
    simp only [ mapEntry?]
    split
    · exact .some ⟨rel_getD (forall₂_getElem? hargs 0) .unknown,
        rel_getD (forall₂_getElem? hargs 1) .unknown⟩
    · exact .none
  | _ => exact .none

lemma resultOrUnknown (h : a.Mirrors m b) : a.resultOrUnknown.Mirrors m b.resultOrUnknown := by
  cases h with
  | fn _ hresult => exact hresult
  | _ => exact .unknown

lemma unionMembers (h : a.Mirrors m b) : Matched m a.unionMembers b.unionMembers := by
  have hsingle : Matched m [a] [b] := .of_forall₂ (.cons h .nil)
  cases h with
  | union h hr => exact ⟨_, h, hr⟩
  | _ => exact hsingle

lemma flatMap_unionMembers (h : Matched m xs ys) :
    Matched m (xs.flatMap Ty.unionMembers) (ys.flatMap Ty.unionMembers) := by
  obtain ⟨zs, h, hr⟩ := h
  refine .rearranged ?_ (hr.imp (f := (·.flatMap Ty.unionMembers)) rearranged_flatMap_unionMembers)
  clear hr
  induction h with
  | nil => exact .of_forall₂ .nil
  | cons hxy _ ih => exact hxy.unionMembers.append ih

lemma insertMember (hs : Forall₂ (Mirrors m) xs ys) (h : a.Mirrors m b) :
    Forall₂ (Mirrors m) (insertMember xs a) (insertMember ys b) := by
  have hany : xs.any (· == a) = ys.any (· == b) := forall₂_any hs fun _ _ hxy => hxy.beq_eq h
  simp only [Ty.insertMember, hany]
  split
  · exact hs
  · exact rel_append hs (.cons h .nil)

lemma dedup (h : Matched m xs ys) : Matched m (Ty.dedup xs) (Ty.dedup ys) := by
  obtain ⟨zs, h, hr⟩ := h
  have hdedup : Forall₂ (Mirrors m) (Ty.dedup xs) (Ty.dedup zs) :=
    rel_foldl (P := Forall₂ (Mirrors m)) (R := Mirrors m)
      (fun _ _ hs _ _ hxy => insertMember hs hxy) .nil h
  exact ⟨_, hdedup, hr.imp (rearranged_foldl_insertMember · .nil)⟩

lemma makeUnion_of_matched (h : Matched m xs ys) :
    (Ty.makeUnion xs).Mirrors m (Ty.makeUnion ys) := by
  have hdedup := dedup (flatMap_unionMembers h)
  simp only [Ty.makeUnion]
  generalize Ty.dedup (xs.flatMap Ty.unionMembers) = us at hdedup
  generalize Ty.dedup (ys.flatMap Ty.unionMembers) = vs at hdedup
  have hlength := hdedup.length_eq
  match us, vs, hlength with
  | [], [], _ => exact .error
  | [u], [v], _ =>
    obtain ⟨w, hw, huw⟩ := hdedup.mem_left (.head _)
    rwa [mem_singleton.mp hw] at huw
  | _ :: _ :: _, _ :: _ :: _, _ =>
    obtain ⟨ws, hws, hr⟩ := hdedup
    exact .union hws hr

lemma makeUnion (h : Forall₂ (Mirrors m) xs ys) : (Ty.makeUnion xs).Mirrors m (Ty.makeUnion ys) :=
  makeUnion_of_matched (.of_forall₂ h)

lemma removeNull (h : a.Mirrors m b) : a.removeNull.Mirrors m b.removeNull := by
  have hsingle : (if a.isNull then Ty.error else a).Mirrors m (if b.isNull then Ty.error else b) := by
    rw [h.isNull]
    split
    · exact .error
    · exact h
  cases h with
  | union h hr =>
    refine makeUnion_of_matched ⟨_, rel_filter (q := fun x => !x.isNull) (fun x y hxy => ?_) h, ?_⟩
    · simp only [hxy.isNull]
    · exact hr.imp (f := (·.filter (!·.isNull))) fun h => h.filter _
  | _ => exact hsingle

lemma containerMember? (h : a.Mirrors m b) (name : String) :
    Option.Rel (Mirrors m) (a.containerMember? name) (b.containerMember? name) := by
  have harray := h.arrayElement?
  have hmap := h.mapEntry?
  simp only [Ty.containerMember?]
  generalize a.arrayElement? = x at harray
  generalize b.arrayElement? = y at harray
  cases harray with
  | some helement =>
    have hoptional := makeUnion (.cons helement (.cons (.prim .null) .nil))
    dsimp only
    split
    · exact .some (.fn .nil (.prim _))
    · exact .some (.fn (.cons helement .nil) (.prim _))
    · exact .some (.fn .nil hoptional)
    · exact .some (.fn (.cons helement .nil) (.prim _))
    · exact .none
  | none =>
    generalize a.mapEntry? = x at hmap
    generalize b.mapEntry? = y at hmap
    cases hmap with
    | none => exact .none
    | some hentry =>
      obtain ⟨hkey, hvalue⟩ := hentry
      have hoptional := makeUnion (.cons hvalue (.cons (.prim .null) .nil))
      dsimp only
      split
      · exact .some (.fn .nil (.prim _))
      · exact .some (.fn (.cons hkey .nil) hoptional)
      · exact .some (.fn (.cons hkey .nil) hoptional)
      · exact .some (.fn (.cons hkey (.cons hvalue .nil)) (.prim _))
      · exact .some (.fn (.cons hkey .nil) (.prim _))
      · exact .some (.fn .nil hkey.array)
      · exact .some (.fn .nil hvalue.array)
      · exact .none

/-- Which primitive is offered first does not change where no two that are accepted change places. -/
lemma offered?_rearranged
    (haccept : ∀ {a b p q}, Apart a b → a.primitive? = some p → b.primitive? = some q →
      accept p → accept q = false) (h : Rearranged Apart xs ys) :
    xs.findSome? (fun x => x.primitive?.filter accept) =
      ys.findSome? fun x => x.primitive?.filter accept := by
  induction h with
  | nil => rfl
  | cons x _ ih => simp only [findSome?_cons, ih]
  | @swap x y h xs =>
    simp only [findSome?_cons]
    cases hx : x.primitive?.filter accept with
    | none => rfl
    | some p =>
      have hy : y.primitive?.filter accept = none := by
        obtain ⟨hp, hacceptp⟩ := Option.filter_eq_some_iff.mp hx
        refine Option.filter_eq_none_iff.mpr fun q hq => ?_
        simpa using haccept h hp hq hacceptp
      rw [hy]
  | trans _ _ ih ih' => exact ih.trans ih'

lemma offered? (h : a.Mirrors m b)
    (haccept : ∀ {a b p q}, Apart a b → a.primitive? = some p → b.primitive? = some q →
      accept p → accept q = false) : offered? accept a = offered? accept b := by
  cases h with
  | @union xs ys zs h hr =>
    have hpointwise : xs.findSome? (fun x => x.primitive?.filter accept) =
        ys.findSome? fun x => x.primitive?.filter accept := by
      clear hr
      induction h with
      | nil => rfl
      | cons hxy _ ih => simp only [findSome?_cons, hxy.primitive?, ih]
    rw [offered?, offered?, hpointwise]
    rcases hr with rfl | ⟨-, hr⟩
    · rfl
    · exact offered?_rearranged haccept hr
  | _ => rfl

lemma castable (ha : a.Mirrors m a') (hb : b.Mirrors m b') : castable a b = castable a' b' := by
  simp only [Rule.castable, ha.isAbsorbing, hb.isAbsorbing, ha.primitive?, hb.primitive?]

lemma joinTexts_eq {separator : String} (h : Forall₂ (fun x y => text x = text y) xs ys) :
    joinTexts separator xs = joinTexts separator ys := by
  induction h with
  | nil => rfl
  | cons hxy hrest ih =>
    cases hrest with
    | nil => simp only [joinTexts, hxy]
    | cons _ _ =>
      have hcons : ∀ (t u : Ty) (rest : List Ty), joinTexts separator (t :: u :: rest) =
          text t ++ separator ++ joinTexts separator (u :: rest) := fun _ _ _ => rfl
      rw [hcons, hcons, hxy, ih]

lemma forall₂_eq (h : Forall₂ (· = ·) xs ys) : xs = ys := by
  rwa [forall₂_eq_eq_eq] at h

lemma eq_of_identity (hsymbols : ∀ i j, m.symbols i j → i = j)
    (hparams : ∀ a b, m.params a b → a = b) (hm : ¬m.loose) (h : a.Mirrors m b) : a = b := by
  induction a using partsInduction generalizing b with
  | h a ih =>
    have hall : ∀ {xs ys : List Ty}, (∀ x ∈ xs, x ∈ a.parts) → Forall₂ (Mirrors m) xs ys →
        xs = ys := fun hxs h =>
      forall₂_eq (forall₂_imp_mem h fun x hx y _ hxy => ih x (hxs x hx) hxy)
    have hsymbol : ∀ {i j : Option SymbolId}, Option.Rel m.symbols i j → i = j := by
      intro i j h
      cases h with
      | none => rfl
      | some h => rw [hsymbols _ _ h]
    cases h with
    | bare h => rw [hsymbol h]
    | @named _ _ _ _ xs ys h hargs =>
      obtain rfl : xs = ys := hall (fun _ hx => hx) hargs
      rw [hsymbol h]
    | @union xs ys _ h hr =>
      obtain rfl : xs = ys := hall (fun _ hx => hx) h
      rw [hr.eq_of_strict hm]
    | @tuple xs ys h =>
      obtain rfl : xs = ys := hall (fun _ hx => hx) h
      rfl
    | @fn ps qs _ _ hps hresult =>
      obtain rfl : ps = qs := hall (fun _ hx => .tail _ hx) hps
      rw [ih _ (.head _) hresult]
    | param h => rw [hparams _ _ h]
    | _ => rfl

lemma text_eq (hparams : ∀ a b, m.params a b → a = b) (hm : ¬m.loose) (h : a.Mirrors m b) :
    a.text = b.text := by
  induction a using partsInduction generalizing b with
  | h a ih =>
    have hall : ∀ {xs ys : List Ty} (separator : String), (∀ x ∈ xs, x ∈ a.parts) →
        Forall₂ (Mirrors m) xs ys → joinTexts separator xs = joinTexts separator ys :=
      fun _ hxs h => joinTexts_eq (forall₂_imp_mem h fun x hx y _ hxy => ih x (hxs x hx) hxy)
    cases h with
    | @named _ _ _ _ xs ys hsymbol hargs =>
      have htexts : joinTexts ", " xs = joinTexts ", " ys := hall ", " (fun _ hx => hx) hargs
      cases hargs with
      | nil => rfl
      | cons _ _ =>
        simp only [text]
        rw [htexts]
    | union h hr =>
      rw [← hr.eq_of_strict hm]
      exact hall " | " (fun _ hx => hx) h
    | @tuple xs ys h =>
      have htexts : joinTexts ", " xs = joinTexts ", " ys := hall ", " (fun _ hx => hx) h
      simp only [text, htexts]
    | @fn ps qs _ _ hparams hresult =>
      have htexts : joinTexts ", " ps = joinTexts ", " qs :=
        hall ", " (fun _ hx => .tail _ hx) hparams
      simp only [text, htexts, ih _ (.head _) hresult]
    | param h => exact hparams _ _ h
    | _ => rfl

end Mirrors

end Ty

def Substitution.Mirrors (m : Pairing) (σ τ : Substitution) : Prop :=
  List.Forall₂ (fun x y => m.params x.1 y.1 ∧ x.2.Mirrors m y.2) σ.entries τ.entries

namespace Substitution.Mirrors

variable {a b : String} {t u : Ty}

lemma empty : empty.Mirrors m .empty := .nil

lemma get? (h : σ.Mirrors m τ) (hab : m.params a b) :
    Option.Rel (Ty.Mirrors m) (σ.get? a) (τ.get? b) := by
  obtain ⟨xs⟩ := σ
  obtain ⟨ys⟩ := τ
  simp only [Mirrors, get?] at h ⊢
  induction h with
  | nil => exact .none
  | @cons x y _ _ hxy _ ih =>
    obtain ⟨hname, hty⟩ := hxy
    have hkey : (a == x.1) = (b == y.1) := by
      rw [Bool.eq_iff_iff, beq_iff_eq, beq_iff_eq]
      exact Relator.rel_eq m.params_unique hab hname
    rw [lookup_cons, lookup_cons, hkey]
    split
    · exact .some hty
    · exact ih

lemma insert (h : σ.Mirrors m τ) (hab : m.params a b) (ht : t.Mirrors m u) :
    (σ.insert a t).Mirrors m (τ.insert b u) := by
  refine .cons ⟨hab, ht⟩ (rel_filter (fun x y hxy => ?_) h)
  simp only [bne_iff_ne, ne_eq, not_iff_not]
  exact Relator.rel_eq m.params_unique hxy.1 hab

lemma ofArgs {ps qs : List String} {xs ys : Option (List Ty)} (h : Forall₂ m.params ps qs)
    (hargs : Option.Rel (Forall₂ (Ty.Mirrors m)) xs ys) :
    (ofArgs ps xs).Mirrors m (ofArgs qs ys) := by
  cases hargs with
  | none => exact empty
  | @some xs ys hargs =>
    exact rel_foldl (fun _ _ hσ _ _ hxy => insert hσ hxy.1 hxy.2) empty (rel_zip h hargs)

end Substitution.Mirrors

namespace Ty.Mirrors

lemma replaceParams (hσ : σ.Mirrors m τ) (h : a.Mirrors m b) :
    (a.replaceParams σ).Mirrors m (b.replaceParams τ) := by
  induction a using partsInduction generalizing b with
  | h a ih =>
    have hall : ∀ {xs ys : List Ty}, (∀ x ∈ xs, x ∈ a.parts) → Forall₂ (Mirrors m) xs ys →
        Forall₂ (Mirrors m) (replaceParamsAll σ xs) (replaceParamsAll τ ys) := by
      intro xs ys hxs h
      rw [replaceParamsAll_eq_map, replaceParamsAll_eq_map, forall₂_map_left_iff,
        forall₂_map_right_iff]
      exact forall₂_imp_mem h fun x hx y _ hxy => ih x (hxs x hx) hxy
    cases h with
    | prim p => exact .prim p
    | bare h => exact .bare h
    | named h hargs => exact .named h (hall (fun _ hx => hx) hargs)
    | union h hr =>
      refine makeUnion_of_matched ⟨_, hall (fun _ hx => hx) h, ?_⟩
      rw [replaceParamsAll_eq_map, replaceParamsAll_eq_map]
      exact hr.imp (f := (·.map (.replaceParams τ))) fun h => h.map fun _ _ h => h.replaceParams τ
    | tuple h => exact .tuple (hall (fun _ hx => hx) h)
    | fn hparams hresult =>
      exact .fn (hall (fun _ hx => .tail _ hx) hparams) (ih _ (.head _) hresult)
    | param h => exact rel_getD (hσ.get? h) (.param h)
    | error => exact .error
    | unknown => exact .unknown

lemma substitute (hσ : σ.Mirrors m τ) (h : a.Mirrors m b) :
    (a.substitute σ).Mirrors m (b.substitute τ) := by
  have hempty : σ.isEmpty = τ.isEmpty := forall₂_isEmpty hσ
  rw [Ty.substitute, Ty.substitute, hempty]
  split
  · exact h
  · exact replaceParams hσ h

end Ty.Mirrors

end StaticTyping
