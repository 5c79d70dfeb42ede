import StaticTyping.Proofs.Types.Order

/-! Types up to equality. Where no union has equal members, equality is an equivalence. A union that is
made of types in normal form stands for the set of their members, and assignability does not tell equal
types apart. -/

namespace StaticTyping.Ty

open List Ty

variable {a b : Ty} {xs ys zs : List Ty}

/-- No member of a union, if the type is one, is equal to a later one. -/
def HasUnequalMembers : Ty → Prop
  | .union members => members.Pairwise fun a b => (a == b) = false
  | _ => True

/-- It is enough that the members of each union are compared in one order. -/
lemma distinct_of_unequal (h : a.Everywhere HasUnequalMembers) : a.Everywhere HasDistinctMembers := by
  induction a using partsInduction with
  | h a ih =>
    refine .intro ?_ fun x hx => ih x hx (h.inside x hx)
    cases a with
    | union members =>
      have hone : members.Pairwise fun a b => (a == b) = false := h.here
      refine .imp_of_mem (fun {x y} hx hy hxy => ⟨hxy, ?_⟩) hone
      have hcomm := same_comm (ih x hx (h.inside x hx)) (ih y hy (h.inside y hy))
      exact Bool.eq_false_iff.mpr fun hyx => Bool.false_ne_true (hxy.symm.trans (hcomm.mpr hyx))
    | _ => trivial

/-- Equality is reflexive and transitive on all types, and an equivalence on those in which no union,
at whatever depth, has equal members. -/
theorem beq_equivalence : (∀ a : Ty, a == a) ∧ (∀ a b c : Ty, a == b → b == c → a == c) ∧
      (∀ a b : Ty, a.Everywhere HasUnequalMembers → b.Everywhere HasUnequalMembers →
        (a == b) = (b == a)) ∧
      Equivalence fun a b : { t : Ty // t.Everywhere HasUnequalMembers } => a.1 == b.1 := by
  have hsymm (a b : Ty) (ha : a.Everywhere HasUnequalMembers) (hb : b.Everywhere HasUnequalMembers) :
      (a == b) = (b == a) :=
    Bool.eq_iff_iff.mpr (same_comm (distinct_of_unequal ha) (distinct_of_unequal hb))
  refine ⟨same_refl, fun _ _ _ => same_trans, hsymm, fun a => same_refl a.1, ?_, same_trans⟩
  intro a b hab
  exact hsymm a.1 b.1 a.2 b.2 ▸ hab

/-- Without the condition a union with a repeated member may be equal to another one in one direction
only. -/
example : (union [.null, .null] == .union [.null, .bool]) = true ∧
    (union [.null, .bool] == .union [.null, .null]) = false := by decide +kernel

lemma Normal.unequal (h : a.Normal) : a.Everywhere HasUnequalMembers := by
  refine h.distinct.mono fun x hx => ?_
  cases x with
  | union members => exact hx.imp fun hab => hab.1
  | _ => trivial

/-- Nothing or an integer: the members in the other order. -/
def nullOrInt : Ty := .union [.null, .prim .i32]

lemma nullOrInt_normal : nullOrInt.Normal := by
  refine .of_parts ⟨by simp, by simp, ?_⟩ (by simp [nullOrInt, parts, prim_normal])
  simp [Distinct, BEq.beq, same]

theorem beq_equivalence_reordered :
    optionalInt.Everywhere HasUnequalMembers ∧ nullOrInt.Everywhere HasUnequalMembers ∧
      optionalInt == nullOrInt ∧ nullOrInt == optionalInt := by
  have hsame : optionalInt == nullOrInt := by decide +kernel
  have hback := beq_equivalence.2.2.1 _ _ optionalInt_normal.unequal nullOrInt_normal.unequal
  exact ⟨optionalInt_normal.unequal, nullOrInt_normal.unequal, hsame, hback ▸ hsame⟩

/-- Each type of the one list is equal to one of the other. -/
structure SameMembers (xs ys : List Ty) : Prop where
  left : ∀ x ∈ xs, ∃ y ∈ ys, x == y
  right : ∀ y ∈ ys, ∃ x ∈ xs, y == x

namespace SameMembers

lemma symm (h : SameMembers xs ys) : SameMembers ys xs := ⟨h.right, h.left⟩

lemma trans (hxy : SameMembers xs ys) (hyz : SameMembers ys zs) : SameMembers xs zs := by
  constructor
  · intro x hx
    obtain ⟨y, hy, hsame⟩ := hxy.left x hx
    obtain ⟨z, hz, hsame'⟩ := hyz.left y hy
    exact ⟨z, hz, same_trans hsame hsame'⟩
  · intro z hz
    obtain ⟨y, hy, hsame⟩ := hyz.right z hz
    obtain ⟨x, hx, hsame'⟩ := hxy.right y hy
    exact ⟨x, hx, same_trans hsame hsame'⟩

lemma of_mem_iff (h : ∀ t, t ∈ xs ↔ t ∈ ys) : SameMembers xs ys :=
  ⟨fun x hx => ⟨x, (h x).mp hx, same_refl x⟩, fun y hy => ⟨y, (h y).mpr hy, same_refl y⟩⟩

lemma single_iff : SameMembers [a] [b] ↔ same a b ∧ same b a := by
  constructor
  · intro h
    obtain ⟨y, hy, hleft⟩ := h.left a (.head _)
    obtain ⟨x, hx, hright⟩ := h.right b (.head _)
    exact ⟨mem_singleton.mp hy ▸ hleft, mem_singleton.mp hx ▸ hright⟩
  · rintro ⟨hleft, hright⟩
    exact ⟨forall_mem_singleton.mpr ⟨b, .head _, hleft⟩,
      forall_mem_singleton.mpr ⟨a, .head _, hright⟩⟩

lemma flatMap {α : Type} {f g : α → List Ty} {l : List α} (h : ∀ i ∈ l, SameMembers (f i) (g i)) :
    SameMembers (l.flatMap f) (l.flatMap g) := by
  constructor
  · intro x hx
    obtain ⟨i, hi, hxi⟩ := mem_flatMap.mp hx
    obtain ⟨y, hy, hsame⟩ := (h i hi).left x hxi
    exact ⟨y, mem_flatMap.mpr ⟨i, hi, hy⟩, hsame⟩
  · intro y hy
    obtain ⟨i, hi, hyi⟩ := mem_flatMap.mp hy
    obtain ⟨x, hx, hsame⟩ := (h i hi).right y hyi
    exact ⟨x, mem_flatMap.mpr ⟨i, hi, hx⟩, hsame⟩

lemma dedup (h : ∀ t ∈ xs, t.Normal) : SameMembers (dedup xs) xs := by
  constructor
  · exact fun x hx => ⟨x, mem_of_mem_dedup hx, same_refl x⟩
  · intro x hx
    obtain ⟨r, hr, hsame⟩ := exists_same_dedup hx
    exact ⟨r, hr, ((h r (mem_of_mem_dedup hr)).same_comm (h x hx)).mp hsame⟩

end SameMembers

lemma Distinct.length_le (h : Distinct xs) (hxs : ∀ x ∈ xs, x.Normal) (hys : ∀ y ∈ ys, y.Normal)
    (hcover : ∀ x ∈ xs, ∃ y ∈ ys, x == y) : xs.length ≤ ys.length := by
  refine length_le_of_match hcover (.imp_of_mem ?_ h)
  rintro a b ha hb hab y hy ⟨hay, hby⟩
  have hyb : same y b := ((hxs b hb).same_comm (hys y hy)).mp hby
  exact Bool.false_ne_true (hab.1.symm.trans (same_trans hay hyb))

lemma not_sameMembers_single (hxs : (union xs).Normal) (hb : b.Normal) : ¬SameMembers xs [b] := by
  intro h
  have htwo : 2 ≤ xs.length := hxs.here.1
  have hsingle : ∀ y ∈ [b], y.Normal := by simpa using hb
  have hone : xs.length ≤ 1 := hxs.here.2.2.length_le hxs.inside hsingle h.left
  omega

lemma same_iff_sameMembers (ha : a.Normal) (hb : b.Normal) :
    same a b ↔ SameMembers a.unionMembers b.unionMembers := by
  rcases isSingle_or_union a with hsingle | ⟨xs, rfl⟩
  · rw [unionMembers_of_single hsingle]
    rcases isSingle_or_union b with hsingle' | ⟨ys, rfl⟩
    · rw [unionMembers_of_single hsingle']
      rw [SameMembers.single_iff]
      exact ⟨fun h => ⟨h, (ha.same_comm hb).mp h⟩, fun h => h.1⟩
    · refine iff_of_false (fun h => ?_) fun h => not_sameMembers_single hb ha h.symm
      exact (same_iff_alike.mp h).single hsingle ys rfl
  · rcases isSingle_or_union b with hsingle' | ⟨ys, rfl⟩
    · rw [unionMembers_of_single hsingle']
      refine iff_of_false (fun h => ?_) (not_sameMembers_single ha hb)
      exact (same_iff_alike.mp ((ha.same_comm hb).mp h)).single hsingle' xs rfl
    · have hcomm : ∀ x ∈ xs, ∀ y ∈ ys, (same x y = true ↔ same y x = true) :=
        fun x hx y hy => (show x.Normal from ha.inside x hx).same_comm (hb.inside y hy)
      constructor
      · intro h
        obtain ⟨hforth, hback⟩ := exists_same_member ha hb h
        refine ⟨hforth, fun y hy => ?_⟩
        obtain ⟨x, hx, hsame⟩ := hback y hy
        exact ⟨x, hx, (hcomm x hx y hy).mp hsame⟩
      · intro h
        have hle := ha.here.2.2.length_le ha.inside hb.inside h.left
        have hge := hb.here.2.2.length_le hb.inside ha.inside h.right
        refine same_iff_alike.mpr (.union (le_antisymm hle hge) fun x hx => ?_)
        obtain ⟨y, hy, hsame⟩ := h.left x hx
        exact ⟨y, hy, (hcomm x hx y hy).mp hsame⟩

lemma normal_of_mem_flatMap (h : ∀ t ∈ xs, t.Normal) : ∀ x ∈ xs.flatMap unionMembers, x.Normal := by
  intro x hx
  obtain ⟨t, ht, hxt⟩ := mem_flatMap.mp hx
  exact normal_of_mem_unionMembers (h t ht) hxt

lemma sameMembers_makeUnion (h : ∀ t ∈ xs, t.Normal) (hne : xs ≠ []) :
    SameMembers (makeUnion xs).unionMembers (xs.flatMap unionMembers) := by
  rw [unionMembers_makeUnion h hne]
  exact .dedup (normal_of_mem_flatMap h)

lemma makeUnion_same_iff (hxs : ∀ t ∈ xs, t.Normal) (hys : ∀ t ∈ ys, t.Normal) (hx : xs ≠ [])
    (hy : ys ≠ []) : same (makeUnion xs) (makeUnion ys) ↔
      SameMembers (xs.flatMap unionMembers) (ys.flatMap unionMembers) := by
  rw [same_iff_sameMembers (makeUnion_normal hxs) (makeUnion_normal hys)]
  have hfrom := sameMembers_makeUnion hxs hx
  have hto := sameMembers_makeUnion hys hy
  exact ⟨fun h => (hfrom.symm.trans h).trans hto, fun h => (hfrom.trans h).trans hto.symm⟩

lemma sameMembers_grouped {groups : List (List Ty)} (h : ∀ group ∈ groups, ∀ t ∈ group, t.Normal)
    (hne : ∀ group ∈ groups, group ≠ []) :
    SameMembers ((groups.map makeUnion).flatMap unionMembers) (groups.flatten.flatMap unionMembers) := by
  rw [flatMap_map, flatten_eq_flatMap, flatMap_assoc]
  exact .flatMap fun group hgroup => sameMembers_makeUnion (h group hgroup) (hne group hgroup)

/-- A union stands for the set of its members: two unions are equal just if their types, opened where
they are unions, are the same up to equality. So neither order nor repetition counts, nor whether some
of the types are joined before. -/
theorem makeUnion_canonical (xs ys : List Ty) (hxs : ∀ t ∈ xs, t.Normal) (hys : ∀ t ∈ ys, t.Normal)
    (hx : xs ≠ []) (hy : ys ≠ []) :
    (makeUnion xs).Normal ∧ (makeUnion ys).Normal ∧ (makeUnion xs == makeUnion ys ↔
        SameMembers (xs.flatMap unionMembers) (ys.flatMap unionMembers)) ∧
      ((∀ t, t ∈ xs ↔ t ∈ ys) → makeUnion xs == makeUnion ys) ∧
      ∀ groups : List (List Ty), groups.flatten = ys → (∀ group ∈ groups, group ≠ []) →
        makeUnion (groups.map makeUnion) == makeUnion ys := by
  refine ⟨makeUnion_normal hxs, makeUnion_normal hys, makeUnion_same_iff hxs hys hx hy, ?_, ?_⟩
  · intro hmem
    refine (makeUnion_same_iff hxs hys hx hy).mpr (.of_mem_iff fun t => ?_)
    simp only [mem_flatMap, hmem]
  · rintro groups rfl hgroups
    have hnormal : ∀ group ∈ groups, ∀ t ∈ group, t.Normal :=
      fun group hgroup t ht => hys t (mem_flatten.mpr ⟨group, hgroup, ht⟩)
    have hunions : ∀ t ∈ groups.map makeUnion, t.Normal :=
      forall_mem_map.mpr fun group hgroup => makeUnion_normal (hnormal group hgroup)
    have hsome : groups.map makeUnion ≠ [] := by
      rintro hnil
      exact hy (by simp [map_eq_nil_iff.mp hnil])
    exact (makeUnion_same_iff hunions hys hsome hy).mpr (sameMembers_grouped hnormal hgroups)

theorem makeUnion_canonical_regrouped :
    let xs := [optionalInt, .bool, .null]
    let ys := [.bool, nullOrInt, .bool]
    (∀ t ∈ xs, t.Normal) ∧ (∀ t ∈ ys, t.Normal) ∧ (makeUnion xs).Normal ∧ (makeUnion ys).Normal ∧
      makeUnion xs == makeUnion ys ∧
      makeUnion [makeUnion [.bool], makeUnion [nullOrInt, .bool]] == makeUnion ys := by
  intro xs ys
  have hxs : ∀ t ∈ xs, t.Normal := by simp [xs, optionalInt_normal, prim_normal]
  have hys : ∀ t ∈ ys, t.Normal := by simp [ys, nullOrInt_normal, prim_normal]
  obtain ⟨hxnormal, hynormal, hiff, -, hgroups⟩ :=
    makeUnion_canonical xs ys hxs hys (cons_ne_nil _ _) (cons_ne_nil _ _)
  have hmembers : SameMembers (xs.flatMap unionMembers) (ys.flatMap unionMembers) := by
    refine .of_mem_iff fun t => ?_
    simp only [xs, ys, optionalInt, nullOrInt, unionMembers, flatMap_cons, flatMap_nil,
      mem_append, mem_cons, not_mem_nil]
    tauto
  refine ⟨hxs, hys, hxnormal, hynormal, hiff.mpr hmembers, ?_⟩
  exact hgroups [[.bool], [nullOrInt, .bool]] rfl (by simp)

/-- Assignability does not tell equal types apart, on either side. -/
theorem assignable_congr (a a' b b' : Ty) (ha : a.Normal) (ha' : a'.Normal) (hb : b.Normal)
    (hb' : b'.Normal) (haa' : a == a') (hbb' : b == b') : a.assignable b = a'.assignable b' := by
  have ha'a : same a' a = true := (ha.same_comm ha').mp haa'
  have hb'b : same b' b = true := (hb.same_comm hb').mp hbb'
  refine Bool.eq_iff_iff.mpr ⟨fun h => ?_, fun h => ?_⟩
  · exact (exchange_of_same hb hb' ha' hbb').right ((exchange_of_same ha ha' hb haa').left h)
  · exact (exchange_of_same hb' hb ha hb'b).right ((exchange_of_same ha' ha hb' ha'a).left h)

/-- A function that takes nothing or an integer, in place of one that takes an integer or nothing, where
either of them or nothing is expected. -/
theorem assignable_congr_reordered :
    let taker : Ty := .fn [optionalInt] optionalInt
    let taker' : Ty := .fn [nullOrInt] nullOrInt
    let place : Ty := .union [.null, .fn [.prim .i32] optionalInt]
    let place' : Ty := .union [.fn [.prim .i32] nullOrInt, .null]
    (taker == taker') = true ∧ (place == place') = true ∧ taker.assignable place ∧
      taker'.assignable place' := by
  intro taker taker' place place'
  have hfn (p r : Ty) (hp : p.Normal) (hr : r.Normal) : (fn [p] r).Normal :=
    .of_parts trivial (by simp [parts, hp, hr])
  have hplace : place.Normal := by
    refine .of_parts ⟨by simp, by simp, ?_⟩ ?_
    · simp [Distinct, BEq.beq, same]
    · simp [place, parts, prim_normal, hfn, optionalInt_normal]
  have hplace' : place'.Normal := by
    refine .of_parts ⟨by simp, by simp, ?_⟩ ?_
    · simp [Distinct, BEq.beq, same]
    · simp [place', parts, prim_normal, hfn, nullOrInt_normal]
  have htaker : taker.Normal := hfn _ _ optionalInt_normal optionalInt_normal
  have htaker' : taker'.Normal := hfn _ _ nullOrInt_normal nullOrInt_normal
  have hsame : (taker == taker') = true := by decide +kernel
  have hsame' : (place == place') = true := by decide +kernel
  have hassign : taker.assignable place := by decide +kernel
  have hcongr := assignable_congr taker taker' place place' htaker htaker' hplace hplace' hsame hsame'
  exact ⟨hsame, hsame', hassign, hcongr ▸ hassign⟩

end StaticTyping.Ty
