import StaticTyping.Proofs.Types.Equality
import StaticTyping.Ty.Substitution

/-! Types in normal form. Joining types, ruling out `null` and putting types for parameters all lead
from normal forms to normal forms, since members of unions in normal form are no unions and equality
is symmetric between normal forms. -/

namespace StaticTyping.Ty

open List Option Ty

/-- A union, if it is one, has two or more members, none of them a union and no two the same. -/
def HasNormalMembers : Ty → Prop
  | .union members =>
    2 ≤ members.length ∧ (∀ m ∈ members, ∀ inner, m ≠ .union inner) ∧ Distinct members
  | _ => True

def Normal (t : Ty) : Prop := t.Everywhere HasNormalMembers

lemma Normal.distinct {t : Ty} (h : t.Normal) : t.Everywhere HasDistinctMembers := by
  refine h.mono fun x hx => ?_
  cases x with
  | union members => exact hx.2.2
  | _ => trivial

lemma Normal.same_comm {a b : Ty} (ha : a.Normal) (hb : b.Normal) : same a b ↔ same b a :=
  Ty.same_comm ha.distinct hb.distinct

variable {x key value t : Ty} {ts acc members : List Ty} {P : Ty → Prop}

lemma mem_insertMember (h : x ∈ insertMember members t) : x ∈ members ∨ x = t := by
  unfold insertMember at h
  split at h
  · exact .inl h
  · simpa using h

lemma mem_of_mem_foldl_insertMember (h : x ∈ ts.foldl insertMember acc) : x ∈ acc ∨ x ∈ ts := by
  induction ts generalizing acc with
  | nil => exact .inl h
  | cons t ts ih =>
    rcases ih h with hacc | hts
    · rcases mem_insertMember hacc with hmem | rfl
      · exact .inl hmem
      · exact .inr (.head _)
    · exact .inr (.tail _ hts)

lemma mem_of_mem_dedup (h : x ∈ dedup ts) : x ∈ ts := by
  have hmem := mem_of_mem_foldl_insertMember h
  simpa using hmem

lemma insertMember_distinct (hmembers : ∀ m ∈ members, m.Normal) (ht : t.Normal)
    (h : Distinct members) : Distinct (insertMember members t) := by
  unfold insertMember
  split
  · exact h
  · rename_i hnew
    have hapart : ∀ m ∈ members, same m t = false := by
      intro m hm
      have hne : ¬ ∃ x ∈ members, same x t := by simpa [BEq.beq] using hnew
      exact Bool.eq_false_iff.mpr fun hsame => hne ⟨m, hm, hsame⟩
    refine pairwise_append.mpr ⟨h, pairwise_singleton _ _, fun m hm x hx => ?_⟩
    obtain rfl := mem_singleton.mp hx
    have hback : same x m = false := by
      rw [Bool.eq_false_iff, ne_eq, ← (hmembers m hm).same_comm ht]
      simp [hapart m hm]
    exact ⟨hapart m hm, hback⟩

lemma foldl_insertMember_distinct (hts : ∀ t ∈ ts, t.Normal) (hacc : ∀ t ∈ acc, t.Normal)
    (h : Distinct acc) : Distinct (ts.foldl insertMember acc) := by
  induction ts generalizing acc with
  | nil => exact h
  | cons t ts ih =>
    have ht := hts t (.head _)
    refine ih (fun x hx => hts x (.tail _ hx)) (fun x hx => ?_) (insertMember_distinct hacc ht h)
    rcases mem_insertMember hx with hx | rfl
    · exact hacc x hx
    · exact ht

lemma mem_foldl_insertMember_of_mem (h : x ∈ acc) : x ∈ ts.foldl insertMember acc := by
  induction ts generalizing acc with
  | nil => exact h
  | cons t ts ih =>
    apply ih
    unfold insertMember
    split
    · exact h
    · simp [h]

lemma dedup_eq_nil (h : dedup ts = []) : ts = [] := by
  cases ts with
  | nil => rfl
  | cons t ts =>
    have hmem : t ∈ ts.foldl insertMember (insertMember [] t) :=
      mem_foldl_insertMember_of_mem (by simp [insertMember])
    rw [show ts.foldl insertMember (insertMember [] t) = [] from h] at hmem
    cases hmem

lemma mem_unionMembers (h : x ∈ t.unionMembers) :
    x = t ∨ ∃ members, t = .union members ∧ x ∈ members := by
  cases t with
  | union members => exact .inr ⟨members, rfl, h⟩
  | _ => exact .inl (by simpa [unionMembers] using h)

lemma Everywhere.of_mem_unionMembers (h : t.Everywhere P)
    (hx : x ∈ t.unionMembers) : x.Everywhere P := by
  rcases mem_unionMembers hx with rfl | ⟨members, rfl, hmem⟩
  · exact h
  · exact h.inside x hmem

lemma Normal.ne_union_of_mem_unionMembers (h : t.Normal) (hx : x ∈ t.unionMembers)
    (inner : List Ty) : x ≠ .union inner := by
  cases t with
  | union members => exact h.here.2.1 x hx inner
  | _ =>
    obtain rfl : x = _ := by simpa [unionMembers] using hx
    simp

lemma unionMembers_ne_nil (h : t.Normal) : t.unionMembers ≠ [] := by
  cases t with
  | union members =>
    have htwo : 2 ≤ members.length := h.here.1
    intro hnil
    have hmembers : members = [] := hnil
    simp [hmembers] at htwo
  | _ => simp [unionMembers]

lemma makeUnion_everywhere (herror : dedup (ts.flatMap unionMembers) = [] → P .error)
    (hunion : 2 ≤ (dedup (ts.flatMap unionMembers)).length →
      P (.union (dedup (ts.flatMap unionMembers)))) (h : ∀ t ∈ ts, t.Everywhere P) :
    (makeUnion ts).Everywhere P := by
  have hmembers : ∀ m ∈ dedup (ts.flatMap unionMembers), m.Everywhere P := by
    intro m hm
    obtain ⟨t, ht, hmt⟩ := mem_flatMap.mp (mem_of_mem_dedup hm)
    exact (h t ht).of_mem_unionMembers hmt
  unfold makeUnion
  generalize dedup (ts.flatMap unionMembers) = members at herror hunion hmembers ⊢
  match members with
  | [] => exact .intro (herror rfl) nofun
  | [t] => exact hmembers t (.head _)
  | a :: b :: rest => exact .intro (hunion (by simp)) hmembers

lemma dedup_hasNormalMembers (h : ∀ t ∈ ts, t.Normal)
    (htwo : 2 ≤ (dedup (ts.flatMap unionMembers)).length) :
    HasNormalMembers (.union (dedup (ts.flatMap unionMembers))) := by
  have hflat : ∀ m ∈ ts.flatMap unionMembers, m.Normal ∧ ∀ inner, m ≠ .union inner := by
    intro m hm
    obtain ⟨t, ht, hmt⟩ := mem_flatMap.mp hm
    exact ⟨(h t ht).of_mem_unionMembers hmt, (h t ht).ne_union_of_mem_unionMembers hmt⟩
  exact ⟨htwo, fun m hm => (hflat m (mem_of_mem_dedup hm)).2,
    foldl_insertMember_distinct (fun m hm => (hflat m hm).1) (by simp) List.Pairwise.nil⟩

lemma makeUnion_normal (h : ∀ t ∈ ts, t.Normal) : (makeUnion ts).Normal :=
  makeUnion_everywhere (fun _ => trivial) (dedup_hasNormalMembers h) h

/-- The symbol that a type names itself, not those that its arguments name. -/
def symbol? (t : Ty) : Option SymbolId := t.head?.bind (·.symbol)

/-- A type in normal form in which each symbol named, at any depth, is as `R` says, and in which there
are errors only if `E`. -/
def Formed (E : Prop) (R : SymbolId → Prop) (t : Ty) : Prop := t.Everywhere fun x =>
    x.HasNormalMembers ∧ (∀ id, x.symbol? = some id → R id) ∧ (x = .error → E)

namespace Formed

variable {E : Prop} {R : SymbolId → Prop} {t : Ty} {ts : List Ty}

lemma normal (h : t.Formed E R) : t.Normal := h.mono fun _ hx => hx.1

lemma symbols (h : t.Formed E R) : t.Everywhere fun x => ∀ id, x.symbol? = some id → R id :=
  h.mono fun _ hx => hx.2.1

lemma mono {R' : SymbolId → Prop} (h : t.Formed E R) (hR : ∀ id, R id → R' id) : t.Formed E R' :=
  Everywhere.mono (fun _ hx => ⟨hx.1, fun id hid => hR id (hx.2.1 id hid), hx.2.2⟩) h

lemma prim (p : Primitive) : (prim p).Formed E R := .intro ⟨trivial, nofun, nofun⟩ nofun

lemma param (name : String) : (param name).Formed E R := .intro ⟨trivial, nofun, nofun⟩ nofun

lemma error (h : E) : error.Formed E R := .intro ⟨trivial, nofun, fun _ => h⟩ nofun

lemma unknown : unknown.Formed E R := .intro ⟨trivial, nofun, nofun⟩ nofun

lemma named {head : TypeHead} {args : Option (List Ty)} (hhead : ∀ id, head.symbol = some id → R id)
    (hargs : ∀ types, args = some types → ∀ t ∈ types, t.Formed E R) :
    (named head args).Formed E R := by
  refine .intro ⟨trivial, hhead, nofun⟩ ?_
  cases args with
  | none => exact nofun
  | some types => exact hargs types rfl

lemma tuple (h : ∀ t ∈ ts, t.Formed E R) : (tuple ts).Formed E R := .intro ⟨trivial, nofun, nofun⟩ h

lemma fn {result : Ty} (hparams : ∀ t ∈ ts, t.Formed E R) (hresult : result.Formed E R) :
    (fn ts result).Formed E R :=
  .intro ⟨trivial, nofun, nofun⟩ (forall_mem_cons.mpr ⟨hresult, hparams⟩)

lemma array (h : t.Formed E R) : (array t).Formed E R :=
  named nofun fun _ htypes => by cases htypes; simpa using h

lemma map (hkey : key.Formed E R) (hvalue : value.Formed E R) : (map key value).Formed E R :=
  named nofun fun _ htypes => by cases htypes; simp [hkey, hvalue]

lemma makeUnion (h : ∀ t ∈ ts, t.Formed E R) (hnil : ts = [] → E) : (makeUnion ts).Formed E R := by
  have hnormal : ∀ t ∈ ts, t.Normal := fun t ht => (h t ht).normal
  refine makeUnion_everywhere (fun hempty => ⟨trivial, nofun, fun _ => hnil ?_⟩)
    (fun htwo => ⟨dedup_hasNormalMembers hnormal htwo, nofun, nofun⟩) h
  refine eq_nil_iff_forall_not_mem.mpr fun t ht => unionMembers_ne_nil (hnormal t ht) ?_
  exact flatMap_eq_nil_iff.mp (dedup_eq_nil hempty) t ht

lemma symbol {id : SymbolId} (h : t.Formed E R) (hid : t.symbol? = some id) : R id :=
  h.here.2.1 id hid

variable (h : t.Formed E R)

include h

lemma of_isError (herror : t.isError) : E := by
  cases t with
  | error => exact h.here.2.2 rfl
  | _ => cases herror

lemma arrayElement {element : Ty} (helement : t.arrayElement? = some element) :
    element.Formed E R := by
  cases t with
  | named head args =>
    simp only [arrayElement?, ite_none_right_eq_some, some.injEq] at helement
    obtain ⟨-, rfl⟩ := helement
    match args with
    | none | some [] => exact unknown
    | some (first :: rest) => exact h.inside first (.head _)
  | _ => simp [arrayElement?] at helement

lemma mapEntry (hentry : t.mapEntry? = some (key, value)) : key.Formed E R ∧ value.Formed E R := by
  cases t with
  | named head args =>
    simp only [ite_none_right_eq_some, mapEntry?, some.injEq, Prod.mk.injEq] at hentry
    obtain ⟨-, rfl, rfl⟩ := hentry
    match args with
    | none | some [] => exact ⟨unknown, unknown⟩
    | some [first] => exact ⟨h.inside first (.head _), unknown⟩
    | some (first :: second :: rest) =>
      exact ⟨h.inside first (.head _), h.inside second (.tail _ (.head _))⟩
  | _ => simp [ mapEntry?] at hentry

omit h in
lemma getD {found : Option Ty} (h : ∀ t ∈ found, t.Formed E R) : (found.getD .unknown).Formed E R := by
  cases found with
  | none => exact unknown
  | some t => exact h t rfl

lemma resultOrUnknown : t.resultOrUnknown.Formed E R := by
  cases t with
  | fn params result => exact h.inside result (.head _)
  | _ => exact unknown

lemma removeNull (hE : E) : t.removeNull.Formed E R := by
  cases t with
  | union members =>
    exact makeUnion (fun m hm => h.inside m (mem_of_mem_filter hm)) fun _ => hE
  | prim p =>
    rw [removeNull]
    split
    · exact error hE
    · exact h
    · simp
  | _ => exact h

end Formed

end StaticTyping.Ty

namespace StaticTyping

lemma mem_of_lookup_eq_some {α β : Type} [BEq α] [LawfulBEq α] {l : List (α × β)} {a : α} {b : β}
    (h : l.lookup a = some b) : (a, b) ∈ l := by
  obtain ⟨before, after, rfl, -⟩ := List.lookup_eq_some_iff.mp h
  simp

lemma lookup_filter {β : Type} (keep : String → Bool) (l : List (String × β)) (key : String) :
    (l.filter fun entry => keep entry.1).lookup key = if keep key then l.lookup key else none := by
  induction l with
  | nil => simp
  | cons entry rest ih =>
    obtain ⟨first, value⟩ := entry
    by_cases hkey : key = first
    · subst hkey
      cases hkeep : keep key <;> simp [hkeep, ih]
    · cases hkeep : keep first <;> simp [hkeep, ih, List.lookup_cons, beq_false_of_ne hkey]

def Substitution.Formed (E : Prop) (R : SymbolId → Prop) (σ : Substitution) : Prop :=
  ∀ entry ∈ σ.entries, entry.2.Formed E R

namespace Substitution.Formed

variable {E : Prop} {R : SymbolId → Prop} {σ : Substitution} {name : String}

lemma empty : Substitution.empty.Formed E R := nofun

lemma insert {t : Ty} (h : σ.Formed E R) (ht : t.Formed E R) : (σ.insert name t).Formed E R := by
  intro entry hentry
  rcases List.mem_cons.mp hentry with rfl | hentry
  · exact ht
  · exact h entry (List.mem_of_mem_filter hentry)

lemma ofArgs {params : List String} {args : Option (List Ty)}
    (h : ∀ types, args = some types → ∀ t ∈ types, t.Formed E R) :
    (Substitution.ofArgs params args).Formed E R := by
  cases args with
  | none => exact empty
  | some types =>
    have hfold : ∀ (pairs : List (String × Ty)) (σ : Substitution), σ.Formed E R →
        (∀ pair ∈ pairs, pair.2.Formed E R) →
        (pairs.foldl (fun σ entry => σ.insert entry.1 entry.2) σ).Formed E R := by
      intro pairs
      induction pairs with
      | nil => exact fun σ hσ _ => hσ
      | cons pair pairs ih =>
        intro σ hσ hpairs
        exact ih _ (hσ.insert (hpairs pair (.head _))) fun q hq => hpairs q (.tail _ hq)
    exact hfold _ _ empty fun pair hpair => h types rfl _ (List.of_mem_zip hpair).2

lemma get {t : Ty} (h : σ.Formed E R) (ht : σ.get? name = some t) : t.Formed E R :=
  h _ (mem_of_lookup_eq_some ht)

end Substitution.Formed

lemma Ty.replaceParamsAll_eq_map (σ : Substitution) (ts : List Ty) :
    replaceParamsAll σ ts = ts.map (replaceParams σ) := by
  induction ts with
  | nil => rfl
  | cons t ts ih => simp [replaceParamsAll, ih]

variable {σ : Substitution} {R : SymbolId → Prop}

lemma Ty.Formed.replaceParams {E : Prop} {t : Ty} (hσ : σ.Formed E R)
    (h : t.Formed E R) : (t.replaceParams σ).Formed E R := by
  induction t using partsInduction with
  | h t ih =>
    have hparts : ∀ x ∈ t.parts, (x.replaceParams σ).Formed E R := fun x hx => ih x hx (h.inside x hx)
    match t with
    | .prim p => exact .prim p
    | .named head none => exact h
    | .named head (some args) =>
      rw [Ty.replaceParams, Ty.replaceParamsAll_eq_map]
      refine .named (h.here.2.1 · ·) fun types htypes => ?_
      cases htypes
      exact List.forall_mem_map.mpr hparts
    | .union members =>
      rw [Ty.replaceParams, Ty.replaceParamsAll_eq_map]
      refine .makeUnion (List.forall_mem_map.mpr hparts) fun hnil => ?_
      have htwo : 2 ≤ members.length := h.here.1.1
      simp [List.map_eq_nil_iff.mp hnil] at htwo
    | .tuple elements =>
      rw [Ty.replaceParams, Ty.replaceParamsAll_eq_map]
      exact .tuple (List.forall_mem_map.mpr hparts)
    | .fn params result =>
      rw [Ty.replaceParams, Ty.replaceParamsAll_eq_map]
      have hparams := List.forall_mem_map.mpr fun x hx => hparts x (.tail _ hx)
      exact .fn hparams (hparts result (.head _))
    | .param name =>
      rw [Ty.replaceParams]
      cases hget : σ.get? name with
      | none => exact .param name
      | some found => exact hσ.get hget
    | .error => exact .error (h.of_isError rfl)
    | .unknown => exact .unknown

lemma Ty.Formed.substitute {E : Prop} {t : Ty} (hσ : σ.Formed E R)
    (h : t.Formed E R) : (t.substitute σ).Formed E R := by
  unfold Ty.substitute
  split
  · exact h
  · exact h.replaceParams hσ

end StaticTyping
