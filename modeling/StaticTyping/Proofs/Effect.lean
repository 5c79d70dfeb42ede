import StaticTyping.Proofs.Contract
import Mathlib.Algebra.BigOperators.Group.List.Basic

/-! Effects that add up. Work that is held to a contract has an effect of some amount on the world,
and the amount for work in sequence is the sum of the amounts. -/

namespace StaticTyping

open List

universe u

/-- What it is to do some amount to the world. -/
structure Effect (N W : Type) [AddMonoid N] where
  does : N → W → W → Prop
  zero : ∀ w, does 0 w w
  add : ∀ {k l : N} {u v w : W}, does k u v → does l v w → does (k + l) u w

lemma Effect.after {N W : Type} [AddMonoid N] (E : Effect N W) {k : N} {u v w : W}
    (huv : E.does 0 u v) (hvw : E.does k v w) : E.does k u w := by
  simpa using E.add huv hvw

def uncounted {W : Type} : Effect ℕ W := ⟨fun _ _ _ => True, fun _ => trivial, fun _ _ => trivial⟩

namespace Steps

variable {F : Type → Type u} {N W α β : Type} [AddMonoid N] {C : Contract F W} {E : Effect N W}
  {xs : List β} {amount : β → N} {f : α → Steps F β} {k : N} {Q : β → Prop} {x : Steps F α}

def Has (C : Contract F W) (E : Effect N W) (k : N) (x : Steps F α) : Prop :=
  ∀ w, x.Meets C w fun _ v => E.does k w v

namespace Has

variable {k l : N} {x : Steps F α}

protected lemma pure (a : α) : Has C E 0 (pure a : Steps F α) := fun w => E.zero w

protected lemma bind (hx : Has C E k x) (hf : ∀ a, Has C E l (f a)) :
    Has C E (k + l) (x >>= f) := by
  intro w
  refine (hx w).bind fun a v hv => ?_
  exact (hf a v).mono fun _ _ hu => E.add hv hu

lemma after {f : α → Steps F β} (hx : Has C E 0 x) (hf : ∀ a, Has C E k (f a)) :
    Has C E k (x >>= f) := by
  simpa using hx.bind hf

lemma before {f : α → Steps F β} (hx : Has C E k x) (hf : ∀ a, Has C E 0 (f a)) :
    Has C E k (x >>= f) := by
  simpa using hx.bind hf

lemma andPure {f : α → β} (hx : Has C E k x) : Has C E k (x >>= fun a => pure (f a)) :=
  hx.before fun a => .pure (f a)

lemma forM {f : β → Steps F Unit} (h : ∀ b ∈ xs, Has C E (amount b) (f b)) :
    Has C E (xs.map amount).sum (xs.forM f) := by
  induction xs with
  | nil => exact .pure ()
  | cons b xs ih =>
    obtain ⟨hb, hxs⟩ := forall_mem_cons.mp h
    exact hb.bind fun _ => ih hxs

lemma mapM {f : β → Steps F α} (h : ∀ b ∈ xs, Has C E (amount b) (f b)) :
    Has C E (xs.map amount).sum (xs.mapM f) := by
  induction xs with
  | nil => exact .pure []
  | cons b xs ih =>
    obtain ⟨hb, hxs⟩ := forall_mem_cons.mp h
    rw [mapM_cons, map_cons, sum_cons]
    exact hb.bind fun _ => (ih hxs).andPure

lemma forM_zero {f : β → Steps F Unit} (h : ∀ b ∈ xs, Has C E 0 (f b)) : Has C E 0 (xs.forM f) := by
  have hsum : (xs.map fun _ => (0 : N)).sum = 0 := by simp
  rw [← hsum]
  exact forM h

lemma mapM_zero {f : β → Steps F α} (h : ∀ b ∈ xs, Has C E 0 (f b)) : Has C E 0 (xs.mapM f) := by
  have hsum : (xs.map fun _ => (0 : N)).sum = 0 := by simp
  rw [← hsum]
  exact mapM h

end Has

/-- From any world on, the work does that amount, and its answer is as `Q` says. -/
def Gives (C : Contract F W) (E : Effect N W) (k : N) (x : Steps F α) (Q : α → Prop) : Prop :=
  ∀ w, x.Meets C w fun a v => E.does k w v ∧ Q a

namespace Gives

variable {k l : N} {x : Steps F α} {P : α → Prop} {Q : β → Prop} {a : α}

protected lemma pure (h : P a) : Gives C E 0 (pure a : Steps F α) P := fun w => ⟨E.zero w, h⟩

lemma has (hx : Gives C E k x P) : Has C E k x := fun w => (hx w).mono fun _ _ hv => hv.1

protected lemma bind (hx : Gives C E k x P) (hf : ∀ a, P a → Gives C E l (f a) Q) :
    Gives C E (k + l) (x >>= f) Q := by
  intro w
  refine (hx w).bind fun a v hv => ?_
  exact (hf a hv.2 v).mono fun _ _ hu => ⟨E.add hv.1 hu.1, hu.2⟩

lemma andPure {f : α → β} (hx : Gives C E k x P) (hf : ∀ a, P a → Q (f a)) :
    Gives C E k (x >>= fun a => pure (f a)) Q := by
  simpa using hx.bind fun a ha => .pure (hf a ha)

lemma bindHas (hx : Gives C E k x P) (hf : ∀ a, P a → Has C E l (f a)) :
    Has C E (k + l) (x >>= f) := by
  intro w
  refine (hx w).bind fun a v hv => ?_
  exact (hf a hv.2 v).mono fun _ _ hu => E.add hv.1 hu

end Gives

lemma Has.gives (hx : Has C E k x) : Gives C E k x fun _ => True :=
  fun w => (hx w).mono fun _ _ hv => ⟨hv, trivial⟩

lemma Has.bindGives {l : N} (hx : Has C E k x)
    (hf : ∀ a, Gives C E l (f a) Q) : Gives C E (k + l) (x >>= f) Q := by
  intro w
  refine (hx w).bind fun a v hv => ?_
  exact (hf a v).mono fun _ _ hu => ⟨E.add hv hu.1, hu.2⟩

end Steps

end StaticTyping
