import StaticTyping.Proofs.Types.NormalForm

/-! Unions whose members stand in another order. Two neighbours may change places where nothing that is
ever asked of the union depends on which of them comes first, whatever types are put for type
parameters. -/

namespace StaticTyping

open List Option

/-- Permutations that exchange only neighbours as `P` says. -/
inductive Rearranged {α : Type} (P : α → α → Prop) : List α → List α → Prop
  | nil : Rearranged P [] []
  | cons (x : α) {xs ys : List α} (h : Rearranged P xs ys) : Rearranged P (x :: xs) (x :: ys)
  | swap {x y : α} (h : P x y) (xs : List α) : Rearranged P (x :: y :: xs) (y :: x :: xs)
  | trans {xs ys zs : List α} (h : Rearranged P xs ys) (h' : Rearranged P ys zs) : Rearranged P xs zs

namespace Rearranged

variable {α β : Type} {P : α → α → Prop} {xs ys us vs : List α} {Q : β → β → Prop}

protected lemma refl : ∀ xs : List α, Rearranged P xs xs
  | [] => .nil
  | x :: xs => .cons x (.refl xs)

lemma perm (h : Rearranged P xs ys) : xs.Perm ys := by
  induction h with
  | nil => exact .nil
  | cons x _ ih => exact .cons x ih
  | swap h xs => exact .swap _ _ xs
  | trans _ _ ih ih' => exact ih.trans ih'

lemma symm (hP : ∀ x y, P x y → P y x) (h : Rearranged P xs ys) : Rearranged P ys xs := by
  induction h with
  | nil => exact .nil
  | cons x _ ih => exact .cons x ih
  | swap h xs => exact .swap (hP _ _ h) xs
  | trans _ _ ih ih' => exact .trans ih' ih

lemma append_left (us : List α) (h : Rearranged P xs ys) : Rearranged P (us ++ xs) (us ++ ys) := by
  induction us with
  | nil => exact h
  | cons u _ ih => exact .cons u ih

lemma append_right (h : Rearranged P xs ys) (us : List α) : Rearranged P (xs ++ us) (ys ++ us) := by
  induction h with
  | nil => exact .refl us
  | cons x _ ih => exact .cons x ih
  | swap h xs => exact .swap h _
  | trans _ _ ih ih' => exact .trans ih ih'

lemma move {x : α} (h : ∀ y ∈ ys, P x y) (us : List α) :
    Rearranged P (x :: (ys ++ us)) (ys ++ x :: us) := by
  induction ys with
  | nil => exact .refl _
  | cons y ys ih =>
    refine .trans (.swap (h y (.head _)) _) (.cons y (ih fun z hz => h z (.tail _ hz)))

lemma map {f : α → β} (hf : ∀ x y, P x y → Q (f x) (f y))
    (h : Rearranged P xs ys) : Rearranged Q (xs.map f) (ys.map f) := by
  induction h with
  | nil => exact .nil
  | cons x _ ih => exact .cons (f x) ih
  | swap h xs => exact .swap (hf _ _ h) _
  | trans _ _ ih ih' => exact .trans ih ih'

lemma filter (p : α → Bool) (h : Rearranged P xs ys) : Rearranged P (xs.filter p) (ys.filter p) := by
  induction h with
  | nil => exact .nil
  | cons x _ ih =>
    simp only [filter_cons]
    split
    · exact .cons x ih
    · exact ih
  | @swap x y h xs =>
    simp only [filter_cons]
    split <;> split
    · exact .swap h _
    · exact .refl _
    · exact .refl _
    · exact .refl _
  | trans _ _ ih ih' => exact .trans ih ih'

lemma pull {R : β → α → Prop} {bs : List β}
    (hPQ : ∀ b b' a a', R b a → R b' a' → P a a' → Q b b') (h : Rearranged P xs ys)
    (hbs : Forall₂ R bs xs) : ∃ cs, Rearranged Q bs cs ∧ Forall₂ R cs ys := by
  induction h generalizing bs with
  | nil =>
    cases hbs
    exact ⟨[], .nil, .nil⟩
  | cons x _ ih =>
    cases hbs with
    | cons hb hbs =>
      obtain ⟨cs, hcs, hrest⟩ := ih hbs
      exact ⟨_, .cons _ hcs, .cons hb hrest⟩
  | swap h xs =>
    cases hbs with
    | cons hb hbs =>
      cases hbs with
      | cons hb' hbs => exact ⟨_, .swap (hPQ _ _ _ _ hb hb' h) _, .cons hb' (.cons hb hbs)⟩
  | trans _ _ ih ih' =>
    obtain ⟨cs, hcs, hys⟩ := ih hbs
    obtain ⟨ds, hds, hzs⟩ := ih' hys
    exact ⟨ds, .trans hcs hds, hzs⟩

end Rearranged

namespace Ty

/-- The outermost shape of a type that no substitution changes. -/
inductive Outline where
  | prim (p : Primitive)
  | named (name : String)
  | tuple
  | fn
  | error
  | unknown
  deriving DecidableEq

def outline? : Ty → Option Outline
  | .prim p => some (.prim p)
  | .named head _ => some (.named head.name)
  | .tuple _ => some .tuple
  | .fn _ _ => some .fn
  | .error => some .error
  | .unknown => some .unknown
  | .union _ | .param _ => none

/-- The same as nothing but itself, and never the width of a number. -/
def isInert : Ty → Bool
  | .prim p => !p.isNumeric
  | .error | .unknown => true
  | _ => false

abbrev Rigid (t : Ty) : Prop := t.Everywhere fun x => x.outline?.isSome

/-- No substitution makes the types the same, unless they are equal from the start. -/
inductive Told (a b : Ty) : Prop
  | left (h : a.isInert = true)
  | right (h : b.isInert = true)
  | outlines {o o' : Outline} (ha : a.outline? = some o) (hb : b.outline? = some o') (hne : o ≠ o')
  | rigid (ha : a.Rigid) (hb : b.Rigid) (hne : same a b = false) (hne' : same b a = false)

/-- Types of which it does not matter which comes first in a union. -/
structure Apart (a b : Ty) : Prop where
  integers {p q : Primitive} : a.primitive? = some p → b.primitive? = some q → p.isInteger = true →
    q.isInteger = false
  floats {p q : Primitive} : a.primitive? = some p → b.primitive? = some q → p.isFloat = true →
    q.isFloat = false
  told : Told a b

variable {a b : Ty} {xs ys : List Ty}

lemma Told.symm (h : Told a b) : Told b a := by
  cases h with
  | left h => exact .right h
  | right h => exact .left h
  | outlines ha hb hne => exact .outlines hb ha hne.symm
  | rigid ha hb hne hne' => exact .rigid hb ha hne' hne

lemma Apart.symm (h : Apart a b) : Apart b a where
  integers {p q} hp hq hint := by
    by_contra hne
    rw [Bool.not_eq_false] at hne
    simp [h.integers hq hp hne] at hint
  floats {p q} hp hq hfloat := by
    by_contra hne
    rw [Bool.not_eq_false] at hne
    simp [h.floats hq hp hne] at hfloat
  told := h.told.symm

lemma isNumeric_of_isInert {p : Primitive} (h : a.isInert) (hp : a.primitive? = some p) :
    p.isInteger = false ∧ p.isFloat = false := by
  cases a with
  | prim q =>
    obtain rfl := some.inj hp
    simpa [isInert, Primitive.isNumeric] using h
  | _ => simp [primitive?] at hp

lemma Apart.of_isInert (h : a.isInert) (b : Ty) : Apart a b where
  integers hp _ hint := by simp [(isNumeric_of_isInert h hp).1] at hint
  floats hp _ hfloat := by simp [(isNumeric_of_isInert h hp).2] at hfloat
  told := .left h

lemma eq_of_same_of_isInert (h : a.isInert) (hsame : same a b ∨ same b a) : a = b := by
  rw [same_iff_alike, same_iff_alike] at hsame
  rcases hsame with hsame | hsame <;> cases hsame <;> simp_all [isInert]

lemma outline?_eq_of_alike (h : Alike a b) : a.outline? = b.outline? := by
  cases h <;> simp_all [outline?]

lemma Told.eq_or_differ (h : Told a b) : a = b ∨ same a b = false ∧ same b a = false := by
  cases h with
  | left h =>
    by_cases hsame : same a b = true ∨ same b a = true
    · exact .inl (eq_of_same_of_isInert h hsame)
    · rw [not_or, Bool.not_eq_true, Bool.not_eq_true] at hsame
      exact .inr hsame
  | right h =>
    by_cases hsame : same b a = true ∨ same a b = true
    · exact .inl (eq_of_same_of_isInert h hsame).symm
    · rw [not_or, Bool.not_eq_true, Bool.not_eq_true] at hsame
      exact .inr hsame.symm
  | outlines ha hb hne =>
    have hdiffer : a.outline? ≠ b.outline? := by
      rw [ha, hb]
      exact fun h => hne (some.inj h)
    refine .inr ⟨?_, ?_⟩
    · exact Bool.eq_false_iff.mpr fun h => hdiffer (outline?_eq_of_alike (same_iff_alike.mp h))
    · exact Bool.eq_false_iff.mpr fun h => hdiffer (outline?_eq_of_alike (same_iff_alike.mp h)).symm
  | rigid _ _ hne hne' => exact .inr ⟨hne, hne'⟩

lemma isInert_replaceParams (h : a.isInert) (σ : Substitution) : a.replaceParams σ = a := by
  cases a with
  | prim | error | unknown => rfl
  | _ => simp [isInert] at h

lemma outline?_replaceParams {o : Outline} (h : a.outline? = some o) (σ : Substitution) :
    (a.replaceParams σ).outline? = some o := by
  cases a with
  | named head args => cases args <;> exact h
  | union | param => simp [outline?] at h
  | _ => exact h

lemma primitive?_replaceParams (h : a.outline?.isSome) (σ : Substitution) :
    (a.replaceParams σ).primitive? = a.primitive? := by
  cases a with
  | named head args => cases args <;> rfl
  | union | param => simp [outline?] at h
  | _ => rfl

lemma Rigid.replaceParams_eq (h : a.Rigid) (σ : Substitution) : a.replaceParams σ = a := by
  induction a using partsInduction with
  | h a ih =>
    have hall : ∀ xs : List Ty, (∀ x ∈ xs, x ∈ a.parts) → replaceParamsAll σ xs = xs := by
      intro xs hxs
      rw [replaceParamsAll_eq_map]
      calc xs.map (replaceParams σ)
        _ = xs.map id := map_congr_left fun x hx => ih x (hxs x hx) (h.inside x (hxs x hx))
        _ = xs := map_id xs
    cases a with
    | prim | error | unknown => rfl
    | named head args =>
      cases args with
      | none => rfl
      | some args => rw [Ty.replaceParams, hall args fun _ hx => hx]
    | tuple elements => rw [Ty.replaceParams, hall elements fun _ hx => hx]
    | fn params result =>
      rw [Ty.replaceParams, hall params fun _ hx => .tail _ hx,
        ih result (.head _) (h.inside _ (.head _))]
    | union | param => exact absurd h.here (by simp [outline?])

lemma Apart.replaceParams (h : Apart a b) (σ : Substitution) :
    Apart (a.replaceParams σ) (b.replaceParams σ) := by
  cases h.told with
  | left hinert =>
    rw [isInert_replaceParams hinert]
    exact .of_isInert hinert _
  | right hinert =>
    rw [isInert_replaceParams hinert]
    exact (Apart.of_isInert hinert _).symm
  | outlines ha hb hne =>
    have hpa := primitive?_replaceParams (isSome_of_eq_some ha) σ
    have hpb := primitive?_replaceParams (isSome_of_eq_some hb) σ
    refine ⟨?_, ?_, .outlines (outline?_replaceParams ha σ) (outline?_replaceParams hb σ) hne⟩
    · rw [hpa, hpb]
      exact h.integers
    · rw [hpa, hpb]
      exact h.floats
  | rigid ha hb _ _ =>
    rw [ha.replaceParams_eq, hb.replaceParams_eq]
    exact h

lemma unionMembers_eq_of_outline (h : a.outline?.isSome) : a.unionMembers = [a] := by
  cases a with
  | union => simp [outline?] at h
  | _ => rfl

lemma outline?_isSome_of_isInert (h : a.isInert) : a.outline?.isSome := by
  cases a with
  | prim | error | unknown => rfl
  | _ => simp [isInert] at h

variable (h : Rearranged Apart xs ys)

include h

lemma rearranged_flatMap_unionMembers :
    Rearranged Apart (xs.flatMap unionMembers) (ys.flatMap unionMembers) := by
  induction h with
  | nil => exact .nil
  | cons x _ ih => exact ih.append_left _
  | @swap x y h xs =>
    simp only [flatMap_cons]
    have hboth (hx : x.outline?.isSome) (hy : y.outline?.isSome) :
        Rearranged Apart (x.unionMembers ++ (y.unionMembers ++ xs.flatMap unionMembers))
          (y.unionMembers ++ (x.unionMembers ++ xs.flatMap unionMembers)) := by
      rw [unionMembers_eq_of_outline hx, unionMembers_eq_of_outline hy]
      exact .swap h _
    cases h.told with
    | left hinert =>
      rw [unionMembers_eq_of_outline (outline?_isSome_of_isInert hinert)]
      have hmove : ∀ z ∈ y.unionMembers, Apart x z := fun z _ => .of_isInert hinert z
      exact .move hmove _
    | right hinert =>
      rw [unionMembers_eq_of_outline (outline?_isSome_of_isInert hinert)]
      have hmove : Rearranged Apart (y :: (x.unionMembers ++ xs.flatMap unionMembers))
          (x.unionMembers ++ y :: xs.flatMap unionMembers) :=
        .move (fun z _ => .of_isInert hinert z) _
      exact hmove.symm fun _ _ => .symm
    | outlines ha hb _ => exact hboth (isSome_of_eq_some ha) (isSome_of_eq_some hb)
    | rigid ha hb _ _ => exact hboth ha.here hb.here
  | trans _ _ ih ih' => exact .trans ih ih'

lemma rearranged_insertMember (t : Ty) :
    Rearranged Apart (insertMember xs t) (insertMember ys t) := by
  simp only [insertMember, h.perm.any_eq]
  split
  · exact h
  · exact h.append_right [t]

omit h in
lemma insertMember_swap (h : Apart a b) (members : List Ty) :
    Rearranged Apart (insertMember (insertMember members a) b)
      (insertMember (insertMember members b) a) := by
  rcases h.told.eq_or_differ with rfl | ⟨hab, hba⟩
  · exact .refl _
  · have hab : (a == b) = false := hab
    have hba : (b == a) = false := hba
    by_cases ha : members.any (· == a) = true <;> by_cases hb : members.any (· == b) = true
    · simpa only [insertMember, ha, hb, if_true] using .refl _
    · simpa [insertMember, ha, hb] using .refl _
    · simpa [insertMember, ha, hb] using .refl _
    · simpa [insertMember, ha, hb, hab, hba] using Rearranged.append_left members (.swap h [])

lemma rearranged_foldl_insertMember {us vs : List Ty} (hacc : Rearranged Apart us vs) :
    Rearranged Apart (xs.foldl insertMember us) (ys.foldl insertMember vs) := by
  have hsame : ∀ (ts : List Ty) {us vs : List Ty}, Rearranged Apart us vs →
      Rearranged Apart (ts.foldl insertMember us) (ts.foldl insertMember vs) := by
    intro ts
    induction ts with
    | nil => exact fun h => h
    | cons t ts ih => exact fun h => ih (rearranged_insertMember h t)
  induction h generalizing us vs with
  | nil => exact hacc
  | cons x _ ih => exact ih (rearranged_insertMember hacc x)
  | @swap x y h xs =>
    refine hsame xs (.trans (insertMember_swap h us) ?_)
    exact rearranged_insertMember (rearranged_insertMember hacc y) x
  | trans _ _ ih ih' => exact .trans (ih hacc) (ih' (.refl vs))

end Ty

end StaticTyping
