import StaticTyping.Proofs.Types.Assignability

/-! Assignability as an order. The union of some types is the least type that all of them can be
assigned to. On precise types, where nothing passes every check, assignability is transitive. -/

namespace StaticTyping.Ty

open List Ty

variable {ts acc : List Ty}

lemma exists_same_foldl_insertMember {x : Ty} (h : x ∈ ts) :
    ∃ r ∈ ts.foldl insertMember acc, same r x := by
  induction ts generalizing acc with
  | nil => simp at h
  | cons t ts ih =>
    rw [foldl_cons]
    rcases mem_cons.mp h with rfl | h
    · by_cases hfound : acc.any (· == x) = true
      · obtain ⟨r, hr, hsame⟩ := any_eq_true.mp hfound
        have hmem : r ∈ insertMember acc x := by simp [insertMember, hfound, hr]
        exact ⟨r, mem_foldl_insertMember_of_mem hmem, hsame⟩
      · have hmem : x ∈ insertMember acc x := by simp [insertMember, hfound]
        exact ⟨x, mem_foldl_insertMember_of_mem hmem, same_refl x⟩
    · exact ih h

lemma exists_same_dedup {x : Ty} (h : x ∈ ts) : ∃ r ∈ dedup ts, same r x :=
  exists_same_foldl_insertMember h

lemma unionMembers_makeUnion (h : ∀ t ∈ ts, t.Normal) (hne : ts ≠ []) :
    (makeUnion ts).unionMembers = dedup (ts.flatMap unionMembers) := by
  obtain ⟨t, rest, rfl⟩ := exists_cons_of_ne_nil hne
  obtain ⟨x, hx⟩ := exists_mem_of_ne_nil _ (unionMembers_ne_nil (h t (.head _)))
  have hflat : x ∈ (t :: rest).flatMap unionMembers := mem_flatMap.mpr ⟨t, .head _, hx⟩
  obtain ⟨r, hr, -⟩ := exists_same_dedup hflat
  have hsingle : ∀ m ∈ dedup ((t :: rest).flatMap unionMembers), m.IsSingle := by
    intro m hm
    obtain ⟨t', ht', hmt⟩ := mem_flatMap.mp (mem_of_mem_dedup hm)
    exact single_of_mem_unionMembers (h t' ht') hmt
  unfold makeUnion
  generalize dedup ((t :: rest).flatMap unionMembers) = members at hr hsingle ⊢
  match members with
  | [] => simp at hr
  | [m] => exact unionMembers_of_single (hsingle m (.head _))
  | _ :: _ :: _ => rfl

lemma foldl_insertMember_of_distinct (h : Distinct (acc ++ ts)) :
    ts.foldl insertMember acc = acc ++ ts := by
  induction ts generalizing acc with
  | nil => simp
  | cons t ts ih =>
    have hnew : acc.any (· == t) = false := by
      rw [any_eq_false]
      intro x hx
      have hapart := (pairwise_append.mp h).2.2 x hx t (.head _)
      simp [hapart.1]
    have hinsert : insertMember acc t = acc ++ [t] := by simp [insertMember, hnew]
    rw [foldl_cons, hinsert, ih (by simpa using h), append_assoc, singleton_append]

lemma dedup_of_distinct (h : Distinct ts) : dedup ts = ts := foldl_insertMember_of_distinct h

lemma dedup_flatMap_unionMembers (hsingle : ∀ t ∈ ts, t.IsSingle) (h : Distinct ts) :
    dedup (ts.flatMap unionMembers) = ts := by
  have hflat : ts.flatMap unionMembers = ts := by
    rw [flatMap_congr fun t ht => unionMembers_of_single (hsingle t ht), flatMap_singleton']
  rw [hflat, dedup_of_distinct h]

variable {t : Ty}

lemma Normal.distinct_unionMembers (h : t.Normal) : Distinct t.unionMembers := by
  cases t with
  | union members => exact h.here.2.2
  | _ => exact pairwise_singleton _ _

lemma makeUnion_unionMembers (h : t.Normal) : makeUnion t.unionMembers = t := by
  have hdedup := dedup_flatMap_unionMembers (fun _ => single_of_mem_unionMembers h)
    h.distinct_unionMembers
  unfold makeUnion
  rw [hdedup]
  cases t with
  | union members =>
    have htwo : 2 ≤ members.length := h.here.1
    match members with
    | [] | [_] => simp at htwo
    | _ :: _ :: _ => rfl
  | _ => rfl

lemma assignable_makeUnion_iff {b : Ty} (h : ∀ t ∈ ts, t.Normal) (hb : b.Normal) :
    assignable (makeUnion ts) b ↔ ∀ t ∈ ts, assignable t b := by
  by_cases hne : ts = []
  · subst hne
    have herror : Fits .error b := .absorbed rfl
    simpa [makeUnion, dedup] using herror.assignable
  have hflat : ∀ x ∈ ts.flatMap unionMembers, x.Normal := by
    intro x hx
    obtain ⟨t, ht, hxt⟩ := mem_flatMap.mp hx
    exact normal_of_mem_unionMembers (h t ht) hxt
  rw [assignable_iff_from_members (makeUnion_normal h) hb, unionMembers_makeUnion h hne]
  constructor
  · intro hassign t ht
    rw [assignable_iff_from_members (h t ht) hb]
    intro x hx
    have hmem : x ∈ ts.flatMap unionMembers := mem_flatMap.mpr ⟨t, ht, hx⟩
    obtain ⟨r, hr, hsame⟩ := exists_same_dedup hmem
    have hnr := hflat r (mem_of_mem_dedup hr)
    exact (exchange_of_same hnr (hflat x hmem) hb hsame).left (hassign r hr)
  · intro hassign x hx
    obtain ⟨t, ht, hxt⟩ := mem_flatMap.mp (mem_of_mem_dedup hx)
    exact (assignable_iff_from_members (h t ht) hb).mp (hassign t ht) x hxt

/-- Each type can be assigned to the union of all, and the union can be assigned to just those types
that all of them can be assigned to. -/
theorem makeUnion_least_upper_bound (ts : List Ty) (h : ∀ t ∈ ts, t.Normal) :
    (∀ t ∈ ts, t.assignable (makeUnion ts)) ∧
      ∀ b : Ty, b.Normal → ((makeUnion ts).assignable b ↔ ∀ t ∈ ts, t.assignable b) := by
  constructor
  · have hself : assignable (makeUnion ts) (makeUnion ts) = true := assignable_of_same (same_refl _)
    exact (assignable_makeUnion_iff h (makeUnion_normal h)).mp hself
  · intro b hb
    exact assignable_makeUnion_iff h hb

def optionalInt : Ty := .union [.prim .i32, .null]

lemma optionalInt_hasNormalMembers : optionalInt.HasNormalMembers := by
  refine ⟨by simp, by simp, ?_⟩
  simp [Distinct, BEq.beq, same]

lemma Normal.of_parts (here : t.HasNormalMembers) (inside : ∀ x ∈ t.parts, x.Normal) :
    t.Normal := .intro here inside

lemma prim_normal (p : Primitive) : (prim p).Normal := .of_parts trivial nofun

lemma optionalInt_normal : optionalInt.Normal :=
  .of_parts optionalInt_hasNormalMembers (by simp [optionalInt, parts, prim_normal])

theorem makeUnion_least_upper_bound_sample :
    (∀ t ∈ [optionalInt, .tuple [optionalInt], .null], t.Normal) ∧ optionalInt.Normal ∧
      (∀ t ∈ [optionalInt, .tuple [optionalInt], .null],
        t.assignable (makeUnion [optionalInt, .tuple [optionalInt], .null])) ∧
      ((makeUnion [optionalInt, .tuple [optionalInt], .null]).assignable optionalInt ↔
        ∀ t ∈ [optionalInt, .tuple [optionalInt], .null], t.assignable optionalInt) := by
  have hint := optionalInt_normal
  have htuple : (tuple [optionalInt]).Normal := .of_parts trivial (by simpa [parts] using hint)
  have hall : ∀ t ∈ [optionalInt, .tuple [optionalInt], .null], t.Normal := by
    simp [hint, htuple, prim_normal]
  obtain ⟨hupper, hleast⟩ := makeUnion_least_upper_bound _ hall
  exact ⟨hall, hint, hupper, hleast optionalInt hint⟩

/-- The arguments of a named type are left out just where the name is not that of a generic type. -/
def HasArgsOf (generic : Set String) : Ty → Prop
  | .named head args => args = none ↔ head.name ∉ generic
  | _ => True

/-- A type in normal form that is known in full: nothing in it absorbs, and arguments are given for
each generic type, and for no other. -/
def Precise (generic : Set String) (t : Ty) : Prop :=
  t.Everywhere fun x => x.HasNormalMembers ∧ x.isAbsorbing = false ∧ x.HasArgsOf generic

lemma Precise.of_parts {generic : Set String} (hnormal : t.HasNormalMembers)
    (hsolid : t.isAbsorbing = false) (hargs : t.HasArgsOf generic)
    (inside : ∀ x ∈ t.parts, x.Precise generic) : t.Precise generic :=
  .intro ⟨hnormal, hsolid, hargs⟩ inside

section Transitivity

variable {generic : Set String} {a b c : Ty}

lemma Precise.normal (h : a.Precise generic) : a.Normal := h.mono fun _ hx => hx.1

lemma Precise.member {x : Ty} (h : a.Precise generic) (hx : x ∈ a.unionMembers) :
    x.Precise generic := .of_mem_unionMembers h hx

lemma Precise.args_iff {h k : TypeHead} {xs ys : Option (List Ty)}
    (hx : (named h xs).Precise generic) (hy : (named k ys).Precise generic)
    (hname : h.name = k.name) : xs = none ↔ ys = none := by
  have hleft : xs = none ↔ h.name ∉ generic := hx.here.2.2
  have hright : ys = none ↔ k.name ∉ generic := hy.here.2.2
  rw [hleft, hright, hname]

lemma Fits.matches (ha : a.Precise generic) (hb : b.Precise generic) (h : Fits a b) :
    Matches (Ty.assignable · ·) a b := by
  cases h with
  | absorbed habsorbs => simp [ha.here.2.1] at habsorbs
  | absorbing habsorbs => simp [hb.here.2.1] at habsorbs
  | bareLeft hname =>
    obtain rfl := (ha.args_iff hb hname).mp rfl
    exact .bare hname
  | bareRight hname =>
    obtain rfl := (ha.args_iff hb hname).mpr rfl
    exact .bare hname
  | matching h => exact h

/-- Transitivity with a type as the first of three and as the last. Neither half goes through alone,
since parameters turn the order round. -/
lemma assignable_trans_ends (ha : a.Precise generic) :
    (∀ b c : Ty, b.Precise generic → c.Precise generic → assignable a b →
      assignable b c → assignable a c) ∧
    ∀ b c : Ty, b.Precise generic → c.Precise generic → assignable c b →
      assignable b a → assignable c a := by
  induction a using partsInduction with
  | h a ih =>
    have hfirst : ∀ x ∈ a.parts, ∀ y z : Ty, y.Precise generic → z.Precise generic →
        assignable x y = true → assignable y z = true → assignable x z = true :=
      fun x hx => (ih x hx (ha.inside x hx)).1
    have hlast : ∀ x ∈ a.parts, ∀ y z : Ty, y.Precise generic → z.Precise generic →
        assignable z y = true → assignable y x = true → assignable z x = true :=
      fun x hx => (ih x hx (ha.inside x hx)).2
    constructor
    · intro b c hb hc hab hbc
      rcases isSingle_or_union a with hsingle | ⟨xs, rfl⟩
      · -- Of a type that is no union, one member of `b` is met, and of that one member of `c`.
        rw [assignable_iff_members ha.normal hb.normal, unionMembers_of_single hsingle] at hab
        rw [assignable_iff_members hb.normal hc.normal] at hbc
        rw [assignable_iff_members ha.normal hc.normal, unionMembers_of_single hsingle]
        intro x hx
        obtain rfl := mem_singleton.mp hx
        obtain ⟨y, hy, hxy⟩ := hab x hx
        obtain ⟨z, hz, hyz⟩ := hbc y hy
        have hpy := hb.member hy
        have hpz := hc.member hz
        have hmatch := (hxy.matches ha hpy).trans (hyz.matches hpy hpz)
          (fun x hx y hy z hz => hfirst x hx y z (hpy.inside y hy) (hpz.inside z hz))
          (fun x hx y hy z hz => hlast x hx y z (hpy.inside y hy) (hpz.inside z hz))
        exact ⟨z, hz, .matching hmatch⟩
      · rw [assignable_union_left ha.normal hb.normal] at hab
        rw [assignable_union_left ha.normal hc.normal]
        intro x hx
        exact hfirst x hx b c hb hc (hab x hx) hbc
    · intro b c hb hc hcb hba
      rw [assignable_iff_members hc.normal hb.normal] at hcb
      rw [assignable_iff_members hb.normal ha.normal] at hba
      rw [assignable_iff_members hc.normal ha.normal]
      intro z hz
      obtain ⟨y, hy, hzy⟩ := hcb z hz
      obtain ⟨x, hx, hyx⟩ := hba y hy
      refine ⟨x, hx, ?_⟩
      have hpz := hc.member hz
      have hpy := hb.member hy
      rcases isSingle_or_union a with hsingle | ⟨xs, rfl⟩
      · rw [unionMembers_of_single hsingle] at hx
        obtain rfl := mem_singleton.mp hx
        have hmatch := (hzy.matches hpz hpy).trans (hyx.matches hpy ha)
          (fun z hz y hy x hx => hlast x hx y z (hpy.inside y hy) (hpz.inside z hz))
          (fun z hz y hy x hx => hfirst x hx y z (hpy.inside y hy) (hpz.inside z hz))
        exact .matching hmatch
      · have hzx := hlast x hx y z hpy hpz hzy.assignable hyx.assignable
        have hsx := single_of_mem_unionMembers ha.normal hx
        have hsz := single_of_mem_unionMembers hc.normal hz
        exact (assignable_iff_fits hpz.normal (ha.member hx).normal hsz hsx).mp hzx

end Transitivity

/-- Between precise types assignability is transitive. -/
theorem assignable_trans_of_precise (generic : Set String) (a b c : Ty) (ha : a.Precise generic)
    (hb : b.Precise generic) (hc : c.Precise generic) (hab : a.assignable b) (hbc : b.assignable c) :
    a.assignable c :=
  (assignable_trans_ends ha).1 b c hb hc hab hbc

theorem assignable_trans_of_precise_sample :
    let lenient : Ty := .fn [optionalInt] (.array (.prim .i32))
    let strict : Ty := .fn [.prim .i32] (.array optionalInt)
    let either : Ty := .union [.null, strict]
    lenient.Precise {arrayName} ∧ strict.Precise {arrayName} ∧ either.Precise {arrayName} ∧
      lenient.assignable strict ∧ strict.assignable either ∧ lenient.assignable either := by
  intro lenient strict either
  have hprim (p : Primitive) : (prim p).Precise {arrayName} := .of_parts trivial rfl trivial nofun
  have hint : optionalInt.Precise {arrayName} :=
    .of_parts optionalInt_hasNormalMembers rfl trivial (by simp [optionalInt, parts, hprim])
  have harray (t : Ty) (h : t.Precise {arrayName}) : (array t).Precise {arrayName} :=
    .of_parts trivial rfl (by simp [array, HasArgsOf]) (by simpa [array, parts] using h)
  have hlenient : lenient.Precise {arrayName} :=
    .of_parts trivial rfl trivial (by simp [lenient, parts, hint, harray, hprim])
  have hstrict : strict.Precise {arrayName} :=
    .of_parts trivial rfl trivial (by simp [strict, parts, hint, harray, hprim])
  have heither : either.Precise {arrayName} := by
    refine .of_parts ⟨by simp, by simp [strict], ?_⟩ rfl trivial ?_
    · simp [Distinct, strict, BEq.beq, same]
    · simp [either, parts, hstrict, hprim]
  have hab : lenient.assignable strict := by decide +kernel
  have hbc : strict.assignable either := by decide +kernel
  have hac := assignable_trans_of_precise {arrayName} lenient strict either hlenient hstrict heither hab hbc
  exact ⟨hlenient, hstrict, heither, hab, hbc, hac⟩

end StaticTyping.Ty
