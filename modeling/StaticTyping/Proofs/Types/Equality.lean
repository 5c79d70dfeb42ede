import StaticTyping.Proofs.Types.Parts
import StaticTyping.Ty.Equality
import Mathlib.Data.Fintype.EquivFin
import Mathlib.Data.List.Forall2

/-! Equality of types is reflexive and transitive. It is symmetric where no union has two equal
members: then the members of equal unions match one to one. -/

namespace StaticTyping

open List

lemma forall₂_imp_mem {α β : Type} {r s : α → β → Prop} {xs : List α} {ys : List β}
    (h : Forall₂ r xs ys) (hrs : ∀ x ∈ xs, ∀ y ∈ ys, r x y → s x y) : Forall₂ s xs ys := by
  induction h with
  | nil => exact .nil
  | cons hab _ ih =>
    refine .cons (hrs _ (.head _) _ (.head _) hab) (ih ?_)
    exact fun x hx y hy => hrs x (.tail _ hx) y (.tail _ hy)

namespace Ty

variable {b a c : Ty} {ys xs : List Ty} {r : Ty → Ty → Prop}

lemma sameAll_iff : sameAll xs ys = true ↔ Forall₂ (same · ·) xs ys := by
  induction xs generalizing ys with
  | nil => cases ys <;> simp [sameAll]
  | cons x xs ih => cases ys <;> simp [sameAll, ih]

/-- The ways in which two types are the same, seen one layer deep. -/
inductive Alike : Ty → Ty → Prop
  | prim (p : Primitive) : Alike (.prim p) (.prim p)
  | bare {a b : TypeHead} (hname : a.name = b.name) : Alike (.named a none) (.named b none)
  | named {a b : TypeHead} {xs ys : List Ty} (hname : a.name = b.name)
      (hargs : List.Forall₂ (fun x y => same x y = true) xs ys) :
      Alike (.named a (some xs)) (.named b (some ys))
  | union {xs ys : List Ty} (hlength : xs.length = ys.length)
      (hcover : ∀ x ∈ xs, ∃ y ∈ ys, same y x = true) : Alike (.union xs) (.union ys)
  | tuple {xs ys : List Ty} (helements : List.Forall₂ (fun x y => same x y = true) xs ys) :
      Alike (.tuple xs) (.tuple ys)
  | fn {ps qs : List Ty} {r t : Ty} (hparams : List.Forall₂ (fun x y => same x y = true) ps qs)
      (hresult : same r t = true) : Alike (.fn ps r) (.fn qs t)
  | param (name : String) : Alike (.param name) (.param name)
  | error : Alike .error .error
  | unknown : Alike .unknown .unknown

lemma same_iff_alike : same a b ↔ Alike a b := by
  constructor
  · intro h
    fun_cases same a b with
    | case1 p q =>
      have hpq : p = q := by simpa [same] using h
      exact hpq ▸ .prim p
    | case2 a b => exact .bare (by simpa [same] using h)
    | case3 a xs b ys =>
      have hparts : a.name = b.name ∧ sameAll xs ys := by simpa [same] using h
      exact .named hparts.1 (sameAll_iff.mp hparts.2)
    | case4 xs ys =>
      have hparts : xs.length = ys.length ∧ ∀ x ∈ xs, ∃ y ∈ ys, same y x := by
        simpa [same, coveredBy_eq_all] using h
      exact .union hparts.1 hparts.2
    | case5 xs ys => exact .tuple (sameAll_iff.mp (by simpa [same] using h))
    | case6 ps r qs t =>
      have hparts : sameAll ps qs = true ∧ same r t := by simpa [same] using h
      exact .fn (sameAll_iff.mp hparts.1) hparts.2
    | case7 a b =>
      have hab : a = b := by simpa [same] using h
      exact hab ▸ .param a
    | case8 => exact .error
    | case9 => exact .unknown
    | case10 => simp [same] at h
  · intro h
    cases h with
    | prim p => simp [same]
    | bare hname => simp [same, hname]
    | named hname hargs => simp [same, hname, sameAll_iff.mpr hargs]
    | union hlength hcover => simpa [same, coveredBy_eq_all, hlength] using hcover
    | tuple helements => simpa [same] using sameAll_iff.mpr helements
    | fn hparams hresult => simp [same, sameAll_iff.mpr hparams, hresult]
    | param name => simp [same]
    | error => simp [same]
    | unknown => simp [same]

lemma same_refl (t : Ty) : same t t := by
  induction t using partsInduction with
  | h t ih =>
    rw [same_iff_alike]
    match t with
    | .prim p => exact .prim p
    | .named head none => exact .bare rfl
    | .named head (some args) => exact .named rfl (forall₂_same.mpr ih)
    | .union members => exact .union rfl fun x hx => ⟨x, hx, ih x hx⟩
    | .tuple elements => exact .tuple (forall₂_same.mpr ih)
    | .fn params result =>
      exact .fn (forall₂_same.mpr fun x hx => ih x (.tail _ hx)) (ih result (.head _))
    | .param name => exact .param name
    | .error => exact .error
    | .unknown => exact .unknown

lemma forall₂_trans {s t : Ty → Ty → Prop} {zs : List Ty}
    (h : ∀ x ∈ xs, ∀ y ∈ ys, ∀ z ∈ zs, r x y → s y z → t x z) (hxy : Forall₂ r xs ys)
    (hyz : Forall₂ s ys zs) : Forall₂ t xs zs := by
  induction hxy generalizing zs with
  | nil =>
    cases hyz
    exact .nil
  | cons hab _ ih =>
    cases hyz with
    | cons hbc htail =>
      refine .cons (h _ (.head _) _ (.head _) _ (.head _) hab hbc) (ih ?_ htail)
      exact fun x hx y hy z hz => h x (.tail _ hx) y (.tail _ hy) z (.tail _ hz)

/-- Likeness composes if sameness does between the types directly inside, both ways round: the
members of unions are compared from right to left. -/
lemma Alike.trans (hab : Alike a b) (hbc : Alike b c)
    (h : ∀ x ∈ a.parts, ∀ y ∈ b.parts, ∀ z ∈ c.parts, same x y → same y z → same x z)
    (hback : ∀ x ∈ a.parts, ∀ y ∈ b.parts, ∀ z ∈ c.parts, same z y → same y x →
      same z x) : Alike a c := by
  cases hab with
  | prim p => exact hbc
  | bare hname =>
    cases hbc with
    | bare hname' => exact .bare (hname.trans hname')
  | named hname hargs =>
    cases hbc with
    | named hname' hargs' => exact .named (hname.trans hname') (forall₂_trans h hargs hargs')
  | union hlength hcover =>
    cases hbc with
    | union hlength' hcover' =>
      -- The matches come from the right, so that it is the reverse that must compose.
      refine .union (hlength.trans hlength') fun x hx => ?_
      obtain ⟨y, hy, hyx⟩ := hcover x hx
      obtain ⟨z, hz, hzy⟩ := hcover' y hy
      exact ⟨z, hz, hback x hx y hy z hz hzy hyx⟩
  | tuple helements =>
    cases hbc with
    | tuple helements' => exact .tuple (forall₂_trans h helements helements')
  | fn hparams hresult =>
    cases hbc with
    | fn hparams' hresult' =>
      refine .fn (forall₂_trans (fun x hx y hy z hz => ?_) hparams hparams') ?_
      · exact h x (.tail _ hx) y (.tail _ hy) z (.tail _ hz)
      · exact h _ (.head _) _ (.head _) _ (.head _) hresult hresult'
  | param name => exact hbc
  | error => exact hbc
  | unknown => exact hbc

/-- Transitivity with a type as the first of three and as the last. Neither half goes through alone.
-/
lemma same_trans_ends (t : Ty) : (∀ b c, same t b → same b c → same t c) ∧
      ∀ a b, same a b → same b t → same a t := by
  induction t using partsInduction with
  | h t ih =>
    constructor
    · intro b c htb hbc
      rw [same_iff_alike] at htb hbc ⊢
      exact htb.trans hbc (fun x hx y _ z _ => (ih x hx).1 y z) fun x hx y _ z _ => (ih x hx).2 z y
    · intro a b hab hbt
      rw [same_iff_alike] at hab hbt ⊢
      exact hab.trans hbt (fun x _ y _ z hz => (ih z hz).2 x y) fun x _ y _ z hz => (ih z hz).1 y x

lemma same_trans (hab : same a b) (hbc : same b c) : same a c :=
  (same_trans_ends a).1 b c hab hbc

def Distinct (members : List Ty) : Prop :=
  members.Pairwise fun a b => (a == b) = false ∧ (b == a) = false

def HasDistinctMembers : Ty → Prop
  | .union members => Distinct members
  | _ => True

/-- Types that are each found among others, no two of them at the same one, find different places. -/
lemma exists_injective_match (hcover : ∀ x ∈ xs, ∃ y ∈ ys, r x y)
    (hapart : xs.Pairwise fun a b => ∀ y ∈ ys, ¬ (r a y ∧ r b y)) :
    ∃ found : Fin xs.length → Fin ys.length,
      Function.Injective found ∧ ∀ i, r (xs.get i) (ys.get (found i)) := by
  have hchoose : ∀ i : Fin xs.length, ∃ j : Fin ys.length, r (xs.get i) (ys.get j) := by
    intro i
    obtain ⟨y, hy, hr⟩ := hcover _ (get_mem xs i)
    obtain ⟨j, rfl⟩ := mem_iff_get.mp hy
    exact ⟨j, hr⟩
  choose found hfound using hchoose
  have hne : ∀ i j, i < j → found i ≠ found j := by
    intro i j hij heq
    have hboth := pairwise_iff_get.mp hapart i j hij _ (get_mem ys (found j))
    exact hboth ⟨heq ▸ hfound i, hfound j⟩
  refine ⟨found, fun i j heq => ?_, hfound⟩
  rcases lt_trichotomy i j with hij | hij | hij
  · exact absurd heq (hne i j hij)
  · exact hij
  · exact absurd heq.symm (hne j i hij)

lemma length_le_of_match (hcover : ∀ x ∈ xs, ∃ y ∈ ys, r x y)
    (hapart : xs.Pairwise fun a b => ∀ y ∈ ys, ¬ (r a y ∧ r b y)) : xs.length ≤ ys.length := by
  obtain ⟨found, hinj, -⟩ := exists_injective_match hcover hapart
  simpa using Fintype.card_le_of_injective found hinj

/-- Where as many types are told apart as there are types that each of them is found among, none of
the latter is left over. -/
lemma exists_match (hlength : xs.length = ys.length) (hcover : ∀ x ∈ xs, ∃ y ∈ ys, r x y)
    (hapart : xs.Pairwise fun a b => ∀ y ∈ ys, ¬ (r a y ∧ r b y)) : ∀ y ∈ ys, ∃ x ∈ xs, r x y := by
  -- Two members never find the same match, so by their number they find all.
  obtain ⟨found, hinj, hfound⟩ := exists_injective_match hcover hapart
  have hbij : Function.Bijective found :=
    (Fintype.bijective_iff_injective_and_card found).mpr ⟨hinj, by simpa using hlength⟩
  intro y hy
  obtain ⟨j, rfl⟩ := mem_iff_get.mp hy
  obtain ⟨i, rfl⟩ := hbij.surjective j
  exact ⟨_, get_mem xs i, hfound i⟩

lemma forall₂_swap (h : ∀ x ∈ xs, ∀ y ∈ ys, (same x y = true ↔ same y x = true))
    (hxy : Forall₂ (same · ·) xs ys) : Forall₂ (same · ·) ys xs :=
  (forall₂_imp_mem hxy fun x hx y hy => (h x hx y hy).mp).flip

/-- Likeness turns round if sameness does between the types directly inside. For unions the first one
must have distinct members, or two of them may match one on the other side. -/
lemma Alike.symm (hab : Alike a b) (h : ∀ x ∈ a.parts, ∀ y ∈ b.parts, (same x y ↔ same y x))
    (hdistinct : a.HasDistinctMembers) : Alike b a := by
  cases hab with
  | prim p => exact .prim p
  | bare hname => exact .bare hname.symm
  | named hname hargs => exact .named hname.symm (forall₂_swap h hargs)
  | @union xs ys hlength hcover =>
    have hapart : xs.Pairwise fun a b => ∀ y ∈ ys, ¬ (same y a = true ∧ same y b = true) := by
      refine .imp_of_mem (fun {a b} ha hb hab y hy hboth => ?_) hdistinct
      have hsame : same a b := same_trans ((h a ha y hy).mpr hboth.1) hboth.2
      exact Bool.false_ne_true (hab.1.symm.trans hsame)
    refine .union hlength.symm fun y hy => ?_
    obtain ⟨x, hx, hyx⟩ := exists_match hlength hcover hapart y hy
    exact ⟨x, hx, (h x hx y hy).mpr hyx⟩
  | tuple helements => exact .tuple (forall₂_swap h helements)
  | fn hparams hresult =>
    refine .fn (forall₂_swap (fun x hx y hy => ?_) hparams) ?_
    · exact h x (.tail _ hx) y (.tail _ hy)
    · exact (h _ (.head _) _ (.head _)).mp hresult
  | param name => exact .param name
  | error => exact .error
  | unknown => exact .unknown

lemma same_comm (ha : a.Everywhere HasDistinctMembers) (hb : b.Everywhere HasDistinctMembers) :
    same a b ↔ same b a := by
  induction a using partsInduction generalizing b with
  | h a ih =>
    have hparts : ∀ x ∈ a.parts, ∀ y ∈ b.parts, (same x y = true ↔ same y x = true) :=
      fun x hx y hy => ih x hx (ha.inside x hx) (hb.inside y hy)
    simp only [same_iff_alike]
    constructor
    · exact fun hab => hab.symm hparts ha.here
    · exact fun hba => hba.symm (fun y hy x hx => (hparts x hx y hy).symm) hb.here

end Ty

end StaticTyping
