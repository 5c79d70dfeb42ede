import StaticTyping.Ty.Basic
import Mathlib.Tactic.Lemma

/-! The types inside a type, and what holds of all of them. -/

namespace StaticTyping.Ty

def parts : Ty → List Ty
  | .named _ (some args) => args
  | .union members => members
  | .tuple elements => elements
  | .fn params result => result :: params
  | .prim _ | .named _ none | .param _ | .error | .unknown => []

lemma sizeOf_lt_of_mem_parts {t x : Ty} (hx : x ∈ t.parts) : sizeOf x < sizeOf t := by
  cases t with
  | named head args =>
    cases args with
    | none => simp [parts] at hx
    | some args =>
      have hlt := List.sizeOf_lt_of_mem (show x ∈ args from hx)
      simp only [named.sizeOf_spec, Option.some.sizeOf_spec]
      omega
  | union ts | tuple ts =>
    have hlt := List.sizeOf_lt_of_mem (show x ∈ ts from hx)
    simp only [union.sizeOf_spec, tuple.sizeOf_spec]
    omega
  | fn params result =>
    simp only [fn.sizeOf_spec]
    rcases List.mem_cons.mp hx with rfl | hx
    · omega
    · have hlt := List.sizeOf_lt_of_mem hx
      omega
  | prim p | param name | error | unknown => simp [parts] at hx

/-- Induction on a type, with the statement at hand for the types directly inside. -/
@[elab_as_elim]
lemma partsInduction {P : Ty → Prop} (h : ∀ t, (∀ x ∈ t.parts, P x) → P t) (t : Ty) : P t :=
  h t fun x hx =>
    have := sizeOf_lt_of_mem_parts hx
    partsInduction h x
termination_by sizeOf t

/-- `P` holds of the type and of every type inside it, at any depth. -/
inductive Everywhere (P : Ty → Prop) : Ty → Prop
  | intro {t : Ty} (here : P t) (inside : ∀ x ∈ t.parts, Everywhere P x) : Everywhere P t

namespace Everywhere

variable {P Q : Ty → Prop} {t : Ty}

lemma here (h : t.Everywhere P) : P t := by
  cases h with
  | intro here _ => exact here

lemma inside (h : t.Everywhere P) : ∀ x ∈ t.parts, x.Everywhere P := by
  cases h with
  | intro _ inside => exact inside

lemma mono (hPQ : ∀ x, P x → Q x) (h : t.Everywhere P) : t.Everywhere Q := by
  induction h with
  | intro here _ ih => exact .intro (hPQ _ here) ih

end Everywhere

end StaticTyping.Ty
