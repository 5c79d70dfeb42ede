import StaticTyping.Proofs.Types.Canonical

/-! One substitution after another is a single one, up to equality of types. Members of a union may
become equal or open into several members under a substitution, so that the two ways are compared by
the members that they come to. -/

namespace StaticTyping

open List Ty

namespace Substitution

variable {σ τ : Substitution}

def Normal (σ : Substitution) : Prop := ∀ entry ∈ σ.entries, entry.2.Normal

/-- The substitution that stands for one after another: what the first one puts for a name goes through
the second one, and the second one adds the names that the first one does not have. -/
def andThen (σ τ : Substitution) : Substitution :=
  ⟨σ.entries.map (fun entry => (entry.1, entry.2.substitute τ)) ++
    τ.entries.filter fun entry => (σ.get? entry.1).isNone⟩

lemma get?_andThen (σ τ : Substitution) (name : String) :
    (σ.andThen τ).get? name = ((σ.get? name).map (·.substitute τ)).or (τ.get? name) := by
  have hfirst (entries : List (String × Ty)) :
      (entries.map fun entry => (entry.1, entry.2.substitute τ)).lookup name =
        (entries.lookup name).map (·.substitute τ) := by
    induction entries with
    | nil => rfl
    | cons entry rest ih =>
      rw [map_cons, lookup_cons, lookup_cons, ih]
      split <;> rfl
  have hsecond := lookup_filter (fun key => (σ.get? key).isNone) τ.entries name
  rw [get?, andThen, lookup_append, hfirst, hsecond]
  change ((σ.get? name).map (·.substitute τ)).or _ = _
  cases σ.get? name <;> rfl

end Substitution

namespace Ty

variable {σ τ : Substitution} {t a b : Ty} {xs ys : List Ty}

lemma Normal.formed (h : t.Normal) : t.Formed True fun _ => True :=
  h.mono fun _ hx => ⟨hx, fun _ _ => trivial, fun _ => trivial⟩

/-- No parameter in the type is one that the substitution puts a type for. -/
def Untouched (σ : Substitution) (t : Ty) : Prop :=
  t.Everywhere fun part => ∀ name, part = .param name → σ.get? name = none

/-- A type whose parameters a substitution has nothing for stays as it is, members of unions in their
order. -/
lemma Untouched.replaceParams_eq (h : t.Untouched σ) (ht : t.Normal) : t.replaceParams σ = t := by
  induction t using partsInduction with
  | h t ih =>
    have hall : ∀ xs : List Ty, (∀ x ∈ xs, x ∈ t.parts) → replaceParamsAll σ xs = xs := by
      intro xs hxs
      rw [replaceParamsAll_eq_map]
      calc xs.map (replaceParams σ)
        _ = xs.map id := map_congr_left fun x hx =>
          ih x (hxs x hx) (h.inside x (hxs x hx)) (ht.inside x (hxs x hx))
        _ = xs := map_id xs
    match t with
    | .prim p => rfl
    | .named head none => rfl
    | .named head (some args) => rw [replaceParams, hall args fun _ hx => hx]
    | .union members =>
      rw [replaceParams, hall members fun _ hx => hx]
      exact makeUnion_unionMembers ht
    | .tuple elements => rw [replaceParams, hall elements fun _ hx => hx]
    | .fn params result =>
      rw [replaceParams, hall params fun _ hx => .tail _ hx,
        ih result (.head _) (h.inside _ (.head _)) (ht.inside _ (.head _))]
    | .param name => rw [replaceParams, h.here name rfl, Option.getD_none]
    | .error => rfl
    | .unknown => rfl

lemma untouched_of_isEmpty (h : σ.isEmpty) (t : Ty) : t.Untouched σ := by
  have hnone (name : String) : σ.get? name = none := by
    rw [Substitution.get?, isEmpty_iff.mp h, lookup_nil]
  induction t using partsInduction with
  | h t ih => exact .intro (fun name _ => hnone name) ih

lemma Normal.substitute_eq (h : t.Normal) (σ : Substitution) :
    t.substitute σ = t.replaceParams σ := by
  unfold substitute
  split
  · rename_i hempty
    exact ((untouched_of_isEmpty hempty t).replaceParams_eq h).symm
  · rfl

lemma Normal.replaceParams (h : t.Normal) (hσ : σ.Normal) : (t.replaceParams σ).Normal := by
  have hformed : σ.Formed True fun _ => True := fun entry hentry => (hσ entry hentry).formed
  exact (h.formed.replaceParams hformed).normal

lemma sameMembers_replaceParams (hσ : σ.Normal) (ht : t.Normal) :
    SameMembers (t.replaceParams σ).unionMembers
      ((t.unionMembers.map (replaceParams σ)).flatMap unionMembers) := by
  rcases isSingle_or_union t with hsingle | ⟨members, rfl⟩
  · rw [unionMembers_of_single hsingle]
    exact .of_mem_iff (by simp)
  · rw [replaceParams, replaceParamsAll_eq_map]
    have htwo : 2 ≤ members.length := ht.here.1
    refine sameMembers_makeUnion (forall_mem_map.mpr fun m hm => ?_) fun hnil => ?_
    · exact .replaceParams (ht.inside m hm) hσ
    · simp [map_eq_nil_iff.mp hnil] at htwo

/-- Lists that are the same up to equality stay so when each type is opened, if equal types open to
lists that are the same. -/
lemma SameMembers.flatMap_same {f : Ty → List Ty} (h : SameMembers xs ys)
    (hf : ∀ x ∈ xs, ∀ y ∈ ys, x == y ∨ y == x → SameMembers (f x) (f y)) :
    SameMembers (xs.flatMap f) (ys.flatMap f) := by
  constructor
  · intro u hu
    obtain ⟨x, hx, hux⟩ := mem_flatMap.mp hu
    obtain ⟨y, hy, hxy⟩ := h.left x hx
    obtain ⟨v, hv, huv⟩ := (hf x hx y hy (.inl hxy)).left u hux
    exact ⟨v, mem_flatMap.mpr ⟨y, hy, hv⟩, huv⟩
  · intro v hv
    obtain ⟨y, hy, hvy⟩ := mem_flatMap.mp hv
    obtain ⟨x, hx, hyx⟩ := h.right y hy
    obtain ⟨u, hu, hvu⟩ := (hf x hx y hy (.inr hyx)).right v hvy
    exact ⟨u, mem_flatMap.mpr ⟨x, hx, hu⟩, hvu⟩

lemma SameMembers.replaceParams (hσ : σ.Normal) (hxs : ∀ x ∈ xs, x.Normal)
    (hys : ∀ y ∈ ys, y.Normal) (h : SameMembers xs ys)
    (hsame : ∀ x ∈ xs, ∀ y ∈ ys, same x y → same (x.replaceParams σ) (y.replaceParams σ)) :
    SameMembers ((xs.map (replaceParams σ)).flatMap unionMembers)
      ((ys.map (replaceParams σ)).flatMap unionMembers) := by
  rw [flatMap_map, flatMap_map]
  refine h.flatMap_same fun x hx y hy hxy => ?_
  have hnormal := (hxs x hx).replaceParams hσ
  have hnormal' := (hys y hy).replaceParams hσ
  refine (same_iff_sameMembers hnormal hnormal').mp (hsame x hx y hy ?_)
  exact hxy.elim id ((hxs x hx).same_comm (hys y hy)).mpr

lemma same_replaceParams (hσ : σ.Normal) (ha : a.Normal) (hb : b.Normal) (h : same a b) :
    same (a.replaceParams σ) (b.replaceParams σ) := by
  induction a using partsInduction generalizing b with
  | h a ih =>
    have hpart : ∀ x ∈ a.parts, ∀ y ∈ b.parts, same x y → same (x.replaceParams σ) (y.replaceParams σ) :=
      fun x hx y hy => ih x hx (ha.inside x hx) (hb.inside y hy)
    have hall {xs ys : List Ty} (hxs : ∀ x ∈ xs, x ∈ a.parts) (hys : ∀ y ∈ ys, y ∈ b.parts)
        (hxy : Forall₂ (fun x y => same x y = true) xs ys) :
        Forall₂ (fun x y => same x y = true) (replaceParamsAll σ xs) (replaceParamsAll σ ys) := by
      rw [replaceParamsAll_eq_map, replaceParamsAll_eq_map, forall₂_map_left_iff,
        forall₂_map_right_iff]
      exact forall₂_imp_mem hxy fun x hx y hy => hpart x (hxs x hx) y (hys y hy)
    cases same_iff_alike.mp h with
    | named hname hargs =>
      exact same_iff_alike.mpr (.named hname (hall (fun _ hx => hx) (fun _ hy => hy) hargs))
    | tuple helements =>
      exact same_iff_alike.mpr (.tuple (hall (fun _ hx => hx) (fun _ hy => hy) helements))
    | fn hparams hresult =>
      refine same_iff_alike.mpr (.fn (hall (fun _ hx => .tail _ hx) (fun _ hy => .tail _ hy) hparams) ?_)
      exact hpart _ (.head _) _ (.head _) hresult
    | union hlength hcover =>
      rw [same_iff_sameMembers (ha.replaceParams hσ) (hb.replaceParams hσ)]
      have hmembers := ((same_iff_sameMembers ha hb).mp h).replaceParams hσ ha.inside hb.inside hpart
      exact ((sameMembers_replaceParams hσ ha).trans hmembers).trans
        (sameMembers_replaceParams hσ hb).symm
    | bare hname => exact h
    | prim | param | error | unknown => exact same_refl _

lemma sameMembers_replaceParams_twice (hσ : σ.Normal) (hτ : τ.Normal) (ht : (union xs).Normal) :
    SameMembers (((union xs).replaceParams σ).replaceParams τ).unionMembers
      (xs.flatMap fun x => ((x.replaceParams σ).replaceParams τ).unionMembers) := by
  have hfirst := ht.replaceParams hσ
  have hinner : ∀ x ∈ xs, (x.replaceParams σ).Normal := fun x hx =>
    .replaceParams (ht.inside x hx) hσ
  have hopened := normal_of_mem_flatMap (forall_mem_map.mpr hinner)
  -- Members that the first substitution made equal stay equal under the second.
  have hmembers := (sameMembers_replaceParams hσ ht).replaceParams hτ
    (fun _ => normal_of_mem_unionMembers hfirst) hopened fun x hx y hy =>
      same_replaceParams hτ (normal_of_mem_unionMembers hfirst hx) (hopened y hy)
  refine ((sameMembers_replaceParams hτ hfirst).trans hmembers).trans ?_
  rw [map_flatMap, flatMap_assoc, flatMap_map]
  exact .flatMap fun x hx => (sameMembers_replaceParams hτ (hinner x hx)).symm

lemma same_replaceParams_twice {μ : Substitution} (hσ : σ.Normal) (hτ : τ.Normal) (hμ : μ.Normal)
    (hget : ∀ name, μ.get? name = ((σ.get? name).map (replaceParams τ)).or (τ.get? name))
    (ht : t.Normal) : same ((t.replaceParams σ).replaceParams τ) (t.replaceParams μ) := by
  induction t using partsInduction with
  | h t ih =>
    have hpart : ∀ x ∈ t.parts, same ((x.replaceParams σ).replaceParams τ) (x.replaceParams μ) :=
      fun x hx => ih x hx (ht.inside x hx)
    have hall {xs : List Ty} (hxs : ∀ x ∈ xs, x ∈ t.parts) :
        Forall₂ (fun x y => same x y = true) (replaceParamsAll τ (replaceParamsAll σ xs))
          (replaceParamsAll μ xs) := by
      simp only [replaceParamsAll_eq_map, map_map, forall₂_map_left_iff, forall₂_map_right_iff]
      exact forall₂_same.mpr fun x hx => hpart x (hxs x hx)
    match t with
    | .named head none => exact same_refl _
    | .named head (some args) => exact same_iff_alike.mpr (.named rfl (hall fun _ hx => hx))
    | .tuple elements => exact same_iff_alike.mpr (.tuple (hall fun _ hx => hx))
    | .fn params result =>
      exact same_iff_alike.mpr (.fn (hall fun _ hx => .tail _ hx) (hpart result (.head _)))
    | .union members =>
      have hnormal : ∀ x ∈ members, ((x.replaceParams σ).replaceParams τ).Normal ∧
          (x.replaceParams μ).Normal := fun x hx =>
        ⟨((show x.Normal from ht.inside x hx).replaceParams hσ).replaceParams hτ,
          (show x.Normal from ht.inside x hx).replaceParams hμ⟩
      rw [same_iff_sameMembers ((ht.replaceParams hσ).replaceParams hτ) (ht.replaceParams hμ)]
      refine ((sameMembers_replaceParams_twice hσ hτ ht).trans ?_).trans
        (sameMembers_replaceParams hμ ht).symm
      rw [flatMap_map]
      exact .flatMap fun x hx =>
        (same_iff_sameMembers (hnormal x hx).1 (hnormal x hx).2).mp (hpart x hx)
    | .param name =>
      rw [replaceParams, replaceParams, hget]
      cases σ.get? name <;> exact same_refl _
    | .prim p => exact same_refl _
    | .error => exact same_refl _
    | .unknown => exact same_refl _

end Ty

namespace Substitution

variable {σ τ : Substitution}

lemma Normal.andThen (hσ : σ.Normal) (hτ : τ.Normal) : (σ.andThen τ).Normal := by
  intro entry hentry
  rcases mem_append.mp hentry with hfirst | hsecond
  · obtain ⟨before, hbefore, rfl⟩ := mem_map.mp hfirst
    have hnormal := hσ before hbefore
    rw [hnormal.substitute_eq]
    exact hnormal.replaceParams hτ
  · exact hτ entry (mem_of_mem_filter hsecond)

end Substitution

/-- Substitutions compose: one after another is the same, up to equality, as the one that puts for a
name of the first what the second makes of its type, and for another name what the second puts for it.
All types stay in normal form, and a substitution that has none of the parameters in a type gives back
the type itself, with the members of its unions in their order. -/
theorem Ty.substitute_andThen (σ τ : Substitution) (t : Ty) (hσ : σ.Normal) (hτ : τ.Normal)
    (ht : t.Normal) :
    (∀ name, (σ.andThen τ).get? name = ((σ.get? name).map (·.substitute τ)).or (τ.get? name)) ∧
    (t.substitute σ).substitute τ == t.substitute (σ.andThen τ) ∧
    (σ.andThen τ).Normal ∧ (t.substitute σ).Normal ∧ ((t.substitute σ).substitute τ).Normal ∧
      (t.substitute (σ.andThen τ)).Normal ∧
    ∀ ρ, t.Untouched ρ → t.substitute ρ = t := by
  have hμ := hσ.andThen hτ
  have hfirst := ht.replaceParams hσ
  have hget (name : String) : (σ.andThen τ).get? name =
      ((σ.get? name).map (replaceParams τ)).or (τ.get? name) := by
    rw [Substitution.get?_andThen]
    cases h : σ.get? name with
    | none => rfl
    | some u => rw [Option.map_some, Option.map_some, (hσ _ (mem_of_lookup_eq_some h)).substitute_eq]
  rw [ht.substitute_eq, ht.substitute_eq, hfirst.substitute_eq]
  refine ⟨Substitution.get?_andThen σ τ, same_replaceParams_twice hσ hτ hμ hget ht, hμ, hfirst,
    hfirst.replaceParams hτ, ht.replaceParams hμ, fun ρ h => ?_⟩
  rw [ht.substitute_eq, h.replaceParams_eq ht]

/-- Under the first substitution the union gains a member, and under the second it loses two. -/
theorem Ty.substitute_andThen_merging :
    let t : Ty := .union [.param "T", .array (.param "U"), .null]
    let σ : Substitution := ⟨[("T", .union [.param "U", .prim .i32])]⟩
    let τ : Substitution := ⟨[("U", optionalInt)]⟩
    t.Normal ∧ σ.Normal ∧ τ.Normal ∧
      t.substitute σ == .union [.param "U", .prim .i32, .array (.param "U"), .null] ∧
      (t.substitute σ).substitute τ == t.substitute (σ.andThen τ) ∧
      t.substitute ⟨[("V", .bool)]⟩ = t := by
  intro t σ τ
  have hparam (name : String) : (param name).Normal := .intro trivial nofun
  have harray : (Ty.array (.param "U")).Normal := .of_parts trivial (by simp [array, parts, hparam])
  have ht : t.Normal := by
    refine .of_parts ⟨by simp, by simp [array], ?_⟩ (by simp [t, parts, harray, hparam, prim_normal])
    simp [Distinct, array, BEq.beq, same]
  have hput : (Ty.union [.param "U", .prim .i32]).Normal := by
    refine .of_parts ⟨by simp, by simp, ?_⟩ (by simp [parts, hparam, prim_normal])
    simp [Distinct, BEq.beq, same]
  have hσ : σ.Normal := forall_mem_singleton.mpr hput
  have hτ : τ.Normal := forall_mem_singleton.mpr optionalInt_normal
  obtain ⟨-, hsame, -, -, -, -, huntouched⟩ := substitute_andThen σ τ t hσ hτ ht
  refine ⟨ht, hσ, hτ, by decide +kernel, hsame, huntouched _ (.intro (by simp [t]) ?_)⟩
  have hfree (name : String) (h : name ≠ "V") : (Ty.param name).Untouched ⟨[("V", .bool)]⟩ :=
    .intro (by simp [Substitution.get?, lookup_cons, beq_false_of_ne h]) (by simp [parts])
  have hnull : Ty.null.Untouched ⟨[("V", .bool)]⟩ := .intro (by simp) (by simp [parts])
  refine List.forall_mem_cons.mpr ⟨hfree "T" (by decide), List.forall_mem_cons.mpr ⟨.intro ?_ ?_, ?_⟩⟩
  · simp [array]
  · exact List.forall_mem_singleton.mpr (hfree "U" (by decide))
  · exact forall_mem_singleton.mpr hnull

end StaticTyping
