import StaticTyping.Proofs.Types.NormalForm
import StaticTyping.Ty.Assignable

/-! Between types in normal form, assignability is decided member by member: each member of the one
type has to fit some member of the other. So types that count as the same can be exchanged for each
other. -/

namespace StaticTyping.Ty

open List Ty

lemma allAssignable_iff {xs ys : List Ty} :
    allAssignable xs ys = true ↔ Forall₂ (assignable · ·) xs ys := by
  induction xs generalizing ys with
  | nil => cases ys <;> simp [allAssignable]
  | cons x xs ih => cases ys <;> simp [allAssignable, ih]

/-- Two types of one form whose parts are related. Parameters go in the opposite direction. -/
inductive Matches (R : Ty → Ty → Prop) : Ty → Ty → Prop
  | prim (p : Primitive) : Matches R (.prim p) (.prim p)
  | bare {h k : TypeHead} (hname : h.name = k.name) : Matches R (.named h none) (.named k none)
  | named {h k : TypeHead} {xs ys : List Ty} (hname : h.name = k.name) (hargs : Forall₂ R xs ys) :
      Matches R (.named h (some xs)) (.named k (some ys))
  | tuple {xs ys : List Ty} (helements : Forall₂ R xs ys) : Matches R (.tuple xs) (.tuple ys)
  | fn {ps qs : List Ty} {r t : Ty} (hparams : Forall₂ R qs ps) (hresult : R r t) :
      Matches R (.fn ps r) (.fn qs t)

/-- Matching composes if the relation does between the types directly inside, both ways round. -/
lemma Matches.trans {R S T : Ty → Ty → Prop} {a b c : Ty} (hab : Matches R a b) (hbc : Matches S b c)
    (h : ∀ x ∈ a.parts, ∀ y ∈ b.parts, ∀ z ∈ c.parts, R x y → S y z → T x z)
    (hback : ∀ x ∈ a.parts, ∀ y ∈ b.parts, ∀ z ∈ c.parts, S z y → R y x → T z x) :
    Matches T a c := by
  cases hab with
  | prim p =>
    cases hbc
    exact .prim p
  | bare hname =>
    cases hbc with
    | bare hname' => exact .bare (hname.trans hname')
  | named hname hargs =>
    cases hbc with
    | named hname' hargs' => exact .named (hname.trans hname') (forall₂_trans h hargs hargs')
  | tuple helements =>
    cases hbc with
    | tuple helements' => exact .tuple (forall₂_trans h helements helements')
  | fn hparams hresult =>
    cases hbc with
    | fn hparams' hresult' =>
      have hqs := forall₂_trans (fun z hz y hy x hx =>
        hback x (.tail _ hx) y (.tail _ hy) z (.tail _ hz)) hparams' hparams
      exact .fn hqs (h _ (.head _) _ (.head _) _ (.head _) hresult hresult')

/-- How a type that is no union fits another: they match, or one of them absorbs, or the arguments of
one of them were left out. -/
inductive Fits : Ty → Ty → Prop
  | absorbed {a b : Ty} (h : a.isAbsorbing = true) : Fits a b
  | absorbing {a b : Ty} (h : b.isAbsorbing = true) : Fits a b
  | bareLeft {h k : TypeHead} {args : Option (List Ty)} (hname : h.name = k.name) :
      Fits (.named h none) (.named k args)
  | bareRight {h k : TypeHead} {args : Option (List Ty)} (hname : h.name = k.name) :
      Fits (.named h args) (.named k none)
  | matching {a b : Ty} (h : Matches (assignable · ·) a b) : Fits a b

lemma assignable_of_same {a b : Ty} (h : same a b) : assignable a b := by
  have hbeq : (a == b) := h
  rw [assignable.eq_def]
  simp [hbeq]

lemma assignable_of_forall {b : Ty} {xs : List Ty} (h : ∀ x ∈ xs, assignable x b) :
    assignable (.union xs) b := by
  have hall : xs.all (assignable · b) := all_eq_true.mpr h
  rw [assignable.eq_def]
  simp [eachAssignable_eq_all, hall]

lemma assignable_of_mem {a y : Ty} {ys : List Ty} (hy : y ∈ ys) (h : assignable a y) :
    assignable a (.union ys) := by
  have hany : ys.any (assignable a ·) := any_eq_true.mpr ⟨y, hy, h⟩
  rw [assignable.eq_def]
  simp [assignableToSome_eq_any, hany]

lemma assignable_of_matches {a b : Ty} (h : Matches (assignable · ·) a b) : assignable a b := by
  rw [assignable.eq_def]
  cases h with
  | prim p =>
    have hbeq : (.prim p == prim p) := same_refl _
    simp [hbeq]
  | bare hname => simp [hname]
  | named hname hargs => simp [hname, allAssignable_iff.mpr hargs]
  | tuple helements => simp [allAssignable_iff.mpr helements]
  | fn hparams hresult => simp [allAssignable_iff.mpr hparams, hresult]

lemma Fits.assignable {a b : Ty} (h : Fits a b) : assignable a b := by
  cases h with
  | matching h => exact assignable_of_matches h
  | absorbed h | absorbing h | bareLeft h =>
    rw [assignable.eq_def]
    simp [h]
  | @bareRight h k args hname =>
    rw [assignable.eq_def]
    cases args <;> simp [hname]

/-- A type is assigned because it is the same, because its members are assigned one by one, because
it is assigned to a member, or because it fits. -/
lemma cases_of_assignable {a b : Ty} (h : assignable a b) : same a b ∨ Fits a b ∨
      (∃ xs, a = .union xs ∧ ∀ x ∈ xs, assignable x b) ∨
      ∃ ys, b = .union ys ∧ ∃ y ∈ ys, assignable a y := by
  rw [assignable.eq_def] at h
  simp only [Bool.or_eq_true, eachAssignable_eq_all, assignableToSome_eq_any] at h
  rcases h with ((((h | h) | h) | h) | h) | h
  · exact .inl h
  · exact .inr (.inl (.absorbed h))
  · exact .inr (.inl (.absorbing h))
  · split at h
    · exact .inr (.inr (.inl ⟨_, rfl, all_eq_true.mp h⟩))
    · simp at h
  · split at h
    · exact .inr (.inr (.inr ⟨_, rfl, any_eq_true.mp h⟩))
    · simp at h
  · right; left
    split at h
    · exact .bareLeft (by simpa using h)
    · exact .bareRight (by simpa using h)
    · have hparts := Bool.and_eq_true_iff.mp h
      exact .matching (.named (by simpa using hparts.1) (allAssignable_iff.mp hparts.2))
    · exact .matching (.tuple (allAssignable_iff.mp h))
    · have hparts := Bool.and_eq_true_iff.mp h
      exact .matching (.fn (allAssignable_iff.mp hparts.1) hparts.2)
    · simp at h

def IsSingle (t : Ty) : Prop := ∀ members, t ≠ .union members

section Members

variable {a b x : Ty} {xs ys : List Ty}

lemma fits_of_same (ha : a.Normal) (hb : b.Normal) (hsingle : a.IsSingle) (h : same a b) :
    Fits a b := by
  cases same_iff_alike.mp h with
  | prim p => exact .matching (.prim p)
  | bare hname => exact .matching (.bare hname)
  | named hname hargs => exact .matching (.named hname (hargs.imp fun _ _ => assignable_of_same))
  | union => exact absurd rfl (hsingle _)
  | tuple helements => exact .matching (.tuple (helements.imp fun _ _ => assignable_of_same))
  | @fn ps qs r t hparams hresult =>
    -- Parameters are compared from right to left, so that equality has to be turned round.
    have hcomm : ∀ p ∈ ps, ∀ q ∈ qs, (same p q = true ↔ same q p = true) := by
      intro p hp q hq
      have hnp : p.Normal := ha.inside p (.tail _ hp)
      exact hnp.same_comm (hb.inside q (.tail _ hq))
    have hback := (forall₂_swap hcomm hparams).imp fun _ _ => assignable_of_same
    exact .matching (.fn hback (assignable_of_same hresult))
  | param | error | unknown => exact .absorbed rfl

lemma assignable_iff_fits (ha : a.Normal) (hb : b.Normal) (hsa : a.IsSingle) (hsb : b.IsSingle) :
    assignable a b ↔ Fits a b := by
  constructor
  · intro h
    rcases cases_of_assignable h with h | h | ⟨xs, rfl, -⟩ | ⟨ys, rfl, -⟩
    · exact fits_of_same ha hb hsa h
    · exact h
    · exact absurd rfl (hsa xs)
    · exact absurd rfl (hsb ys)
  · exact Fits.assignable

lemma absorbing_of_fits_union (h : Fits (.union xs) b) : b.isAbsorbing := by
  cases h with
  | absorbed h => simp [isAbsorbing] at h
  | absorbing h => exact h
  | matching h => cases h

lemma absorbing_of_fits_to_union (h : Fits a (.union ys)) : a.isAbsorbing := by
  cases h with
  | absorbed h => exact h
  | absorbing h => simp [isAbsorbing] at h
  | matching h => cases h

lemma assignable_union_left (ha : (union xs).Normal) (hb : b.Normal) :
    assignable (.union xs) b ↔ ∀ x ∈ xs, assignable x b := by
  constructor
  · intro h x hx
    have hnx : x.Normal := ha.inside x hx
    rcases cases_of_assignable h with h | h | ⟨_, heq, h⟩ | ⟨ys, rfl, y, hy, h⟩
    · cases same_iff_alike.mp h with
      | @union _ ys _ hcover =>
        obtain ⟨y, hy, hyx⟩ := hcover x hx
        have hny : y.Normal := hb.inside y hy
        have hxy : same x y := (hny.same_comm hnx).mp hyx
        exact assignable_of_mem hy (assignable_of_same hxy)
    · exact (Fits.absorbing (absorbing_of_fits_union h)).assignable
    · cases heq
      exact h x hx
    · -- The member that takes the whole union is no union itself, so it takes each member.
      have hsy : y.IsSingle := hb.here.2.1 y hy
      rcases cases_of_assignable h with h | h | ⟨_, heq, h⟩ | ⟨inner, rfl, -⟩
      · cases same_iff_alike.mp h with
        | @union _ inner => exact absurd rfl (hsy inner)
      · have hxy : Fits x y := .absorbing (absorbing_of_fits_union h)
        exact assignable_of_mem hy hxy.assignable
      · cases heq
        exact assignable_of_mem hy (h x hx)
      · exact absurd rfl (hsy inner)
  · intro h
    exact assignable_of_forall h

lemma assignable_union_right (ha : a.IsSingle) (hb : (union ys).Normal) :
    assignable a (.union ys) ↔ ∃ y ∈ ys, assignable a y := by
  constructor
  · intro h
    rcases cases_of_assignable h with h | h | ⟨xs, rfl, -⟩ | ⟨_, heq, h⟩
    · cases same_iff_alike.mp h with
      | @union xs => exact absurd rfl (ha xs)
    · -- What absorbs goes to any member, and there is one.
      have htwo : 2 ≤ ys.length := hb.here.1
      have hpos : 0 < ys.length := by omega
      have hfits : Fits a ys[0] := .absorbed (absorbing_of_fits_to_union h)
      exact ⟨ys[0], getElem_mem hpos, hfits.assignable⟩
    · exact absurd rfl (ha xs)
    · cases heq
      exact h
  · rintro ⟨y, hy, h⟩
    exact assignable_of_mem hy h

lemma unionMembers_of_single (h : a.IsSingle) : a.unionMembers = [a] := by
  cases a with
  | union members => exact absurd rfl (h members)
  | _ => rfl

lemma single_of_mem_unionMembers (ha : a.Normal) (hx : x ∈ a.unionMembers) : x.IsSingle :=
  ha.ne_union_of_mem_unionMembers hx

lemma normal_of_mem_unionMembers (ha : a.Normal) (hx : x ∈ a.unionMembers) : x.Normal :=
  Everywhere.of_mem_unionMembers ha hx

lemma isSingle_or_union (t : Ty) : t.IsSingle ∨ ∃ members, t = .union members := by
  cases t with
  | union members => exact .inr ⟨members, rfl⟩
  | _ => exact .inl nofun

lemma assignable_iff_from_members (ha : a.Normal) (hb : b.Normal) :
    assignable a b ↔ ∀ x ∈ a.unionMembers, assignable x b := by
  rcases isSingle_or_union a with hsingle | ⟨xs, rfl⟩
  · simp [unionMembers_of_single hsingle]
  · exact assignable_union_left ha hb

lemma assignable_iff_to_member (ha : a.IsSingle) (hb : b.Normal) :
    assignable a b ↔ ∃ y ∈ b.unionMembers, assignable a y := by
  rcases isSingle_or_union b with hsingle | ⟨ys, rfl⟩
  · simp [unionMembers_of_single hsingle]
  · exact assignable_union_right ha hb

lemma assignable_iff_members (ha : a.Normal) (hb : b.Normal) :
    assignable a b ↔ ∀ x ∈ a.unionMembers, ∃ y ∈ b.unionMembers, Fits x y := by
  rw [assignable_iff_from_members ha hb]
  apply forall₂_congr
  intro x hx
  have hsx := single_of_mem_unionMembers ha hx
  have hnx := normal_of_mem_unionMembers ha hx
  rw [assignable_iff_to_member hsx hb]
  apply exists_congr
  intro y
  apply and_congr_right
  intro hy
  have hsy := single_of_mem_unionMembers hb hy
  exact assignable_iff_fits hnx (normal_of_mem_unionMembers hb hy) hsx hsy

end Members

section Exchange

variable {a a' b : Ty}

/-- On either side of `b`, the second type can be assigned where the first one can. -/
structure Exchange (a a' b : Ty) : Prop where
  left : assignable a b = true → assignable a' b = true
  right : assignable b a = true → assignable b a' = true

lemma Alike.isAbsorbing_eq (h : Alike a a') : a.isAbsorbing = a'.isAbsorbing := by
  cases h <;> rfl

lemma Alike.single (h : Alike a a') (ha : a.IsSingle) : a'.IsSingle := by
  cases h with
  | union => exact absurd rfl (ha _)
  | _ => exact nofun

/-- Like types match, either way round, unless they are of a form that matches nothing. -/
lemma Alike.matches (h : Alike a a') :
    (Matches (fun x x' => same x x' ∨ same x' x) a a' ∧
      Matches (fun x x' => same x x' ∨ same x' x) a' a) ∨
    ∀ {R b}, ¬ Matches R a b ∧ ¬ Matches R b a := by
  have hleft {xs ys : List Ty} (h : Forall₂ (same · ·) xs ys) :
      Forall₂ (fun x y => same x y ∨ same y x) xs ys := h.imp fun _ _ => .inl
  have hright {xs ys : List Ty} (h : Forall₂ (same · ·) xs ys) :
      Forall₂ (fun x y => same x y ∨ same y x) ys xs := h.flip.imp fun _ _ => .inr
  cases h with
  | prim p => exact .inl ⟨.prim p, .prim p⟩
  | bare hname => exact .inl ⟨.bare hname, .bare hname.symm⟩
  | named hname hargs =>
    exact .inl ⟨.named hname (hleft hargs), .named hname.symm (hright hargs)⟩
  | tuple helements => exact .inl ⟨.tuple (hleft helements), .tuple (hright helements)⟩
  | fn hparams hresult =>
    exact .inl ⟨.fn (hright hparams) (.inl hresult), .fn (hleft hparams) (.inr hresult)⟩
  | _ => exact .inr ⟨nofun, nofun⟩

section Parts

variable (hlike : Alike a a') (h : ∀ x ∈ a.parts, ∀ x' ∈ a'.parts, ∀ y ∈ b.parts,
  same x x' ∨ same x' x → Exchange x x' y)

include hlike h

lemma Fits.exchange_left (hfits : Fits a b) : Fits a' b := by
  cases hfits with
  | absorbed habsorbs => exact .absorbed (hlike.isAbsorbing_eq ▸ habsorbs)
  | absorbing habsorbs => exact .absorbing habsorbs
  | bareLeft hname =>
    cases hlike with
    | bare hsame => exact .bareLeft (hsame.symm.trans hname)
  | bareRight hname =>
    cases hlike with
    | bare hsame | named hsame => exact .bareRight (hsame.symm.trans hname)
  | matching hmatch =>
    obtain ⟨-, hback⟩ := hlike.matches.resolve_right fun hnone => hnone.1 hmatch
    refine .matching (hback.trans hmatch ?_ ?_)
    · exact fun x' hx' x hx y hy hsame => (h x hx x' hx' y hy hsame.symm).left
    · exact fun x' hx' x hx y hy hyx hsame => (h x hx x' hx' y hy hsame).right hyx

lemma Fits.exchange_right (hfits : Fits b a) : Fits b a' := by
  cases hfits with
  | absorbed habsorbs => exact .absorbed habsorbs
  | absorbing habsorbs => exact .absorbing (hlike.isAbsorbing_eq ▸ habsorbs)
  | bareLeft hname =>
    cases hlike with
    | bare hsame | named hsame => exact .bareLeft (hname.trans hsame)
  | bareRight hname =>
    cases hlike with
    | bare hsame => exact .bareRight (hname.trans hsame)
  | matching hmatch =>
    obtain ⟨hforth, -⟩ := hlike.matches.resolve_right fun hnone => hnone.2 hmatch
    refine .matching (hmatch.trans hforth ?_ ?_)
    · exact fun y hy x hx x' hx' hyx hsame => (h x hx x' hx' y hy hsame).right hyx
    · exact fun y hy x hx x' hx' hsame => (h x hx x' hx' y hy hsame.symm).left

end Parts

lemma exists_same_member {xs xs' : List Ty} (ha : (union xs).Normal)
    (ha' : (union xs').Normal) (h : same (.union xs) (.union xs')) :
    (∀ x ∈ xs, ∃ x' ∈ xs', same x x') ∧ ∀ x' ∈ xs', ∃ x ∈ xs, same x x' := by
  have hback : same (.union xs') (.union xs) := (ha.same_comm ha').mp h
  constructor
  · intro x hx
    cases same_iff_alike.mp h with
    | union _ hcover =>
      obtain ⟨x', hx', hsame⟩ := hcover x hx
      have hn : x.Normal := ha.inside x hx
      exact ⟨x', hx', (hn.same_comm (ha'.inside x' hx')).mpr hsame⟩
  · intro x' hx'
    cases same_iff_alike.mp hback with
    | union _ hcover => exact hcover x' hx'

lemma assignable_of_members (ha : a.Normal) (ha' : a'.Normal) (hb : b.Normal)
    (h : ∀ y : Ty, y.Normal → y.IsSingle → assignable y a → assignable y a') :
    assignable b a → assignable b a' := by
  rw [assignable_iff_from_members hb ha, assignable_iff_from_members hb ha']
  intro hassign y hy
  exact h y (normal_of_mem_unionMembers hb hy) (single_of_mem_unionMembers hb hy) (hassign y hy)

lemma exchange_of_same (ha : a.Normal) (ha' : a'.Normal) (hb : b.Normal)
    (h : same a a') : Exchange a a' b := by
  induction a using partsInduction generalizing a' b with
  | h a ih =>
    rcases isSingle_or_union a with hsingle | ⟨xs, rfl⟩
    · have hlike := same_iff_alike.mp h
      have hsingle' := hlike.single hsingle
      have hparts : ∀ y : Ty, y.Normal → ∀ x ∈ a.parts, ∀ x' ∈ a'.parts, ∀ z ∈ y.parts,
          same x x' = true ∨ same x' x = true → Exchange x x' z := by
        intro y hy x hx x' hx' z hz hsame
        have hn : x.Normal := ha.inside x hx
        have hn' : x'.Normal := ha'.inside x' hx'
        exact ih x hx hn hn' (hy.inside z hz) (hsame.elim id (hn'.same_comm hn).mp)
      constructor
      · intro hassign
        obtain ⟨y, hy, hay⟩ := (assignable_iff_to_member hsingle hb).mp hassign
        have hny := normal_of_mem_unionMembers hb hy
        have hfits := (assignable_iff_fits ha hny hsingle (single_of_mem_unionMembers hb hy)).mp hay
        have hfits' := hfits.exchange_left hlike (hparts y hny)
        exact (assignable_iff_to_member hsingle' hb).mpr ⟨y, hy, hfits'.assignable⟩
      · refine assignable_of_members ha ha' hb fun y hny hsy hya => ?_
        have hfits := (assignable_iff_fits hny ha hsy hsingle).mp hya
        exact (hfits.exchange_right hlike (hparts y hny)).assignable
    · obtain ⟨xs', rfl⟩ : ∃ xs', a' = .union xs' := by
        cases same_iff_alike.mp h with
        | @union _ xs' => exact ⟨xs', rfl⟩
      obtain ⟨hforth, hback⟩ := exists_same_member ha ha' h
      constructor
      · intro hassign
        rw [assignable_union_left ha hb] at hassign
        rw [assignable_union_left ha' hb]
        intro x' hx'
        obtain ⟨x, hx, hsame⟩ := hback x' hx'
        exact (ih x hx (ha.inside x hx) (ha'.inside x' hx') hb hsame).left (hassign x hx)
      · refine assignable_of_members ha ha' hb fun y hny hsy hya => ?_
        obtain ⟨x, hx, hyx⟩ := (assignable_union_right hsy ha).mp hya
        obtain ⟨x', hx', hsame⟩ := hforth x hx
        have hexchange := ih x hx (ha.inside x hx) (ha'.inside x' hx') hny hsame
        exact assignable_of_mem hx' (hexchange.right hyx)

end Exchange

end StaticTyping.Ty
