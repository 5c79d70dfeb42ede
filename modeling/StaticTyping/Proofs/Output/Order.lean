import StaticTyping.Diagnostic.Basic
import Mathlib.Data.List.Basic

/-! Diagnostics as lists. To hoist diagnostics is to put a list in another order, whatever is in it. -/

namespace StaticTyping

open List

/-- The list with what came from `middle` on moved ahead of what came from `start` to `middle`. -/
def hoisted {α : Type} (start middle : Nat) (xs : List α) : List α :=
  xs.take start ++ xs.drop middle ++ (xs.take middle).drop start

section Hoisted

variable {α β : Type} {start middle : Nat}

lemma hoisted_perm (h : start ≤ middle) (xs : List α) : (hoisted start middle xs).Perm xs := by
  have hfirst : xs.take start ++ (xs.take middle).drop start = xs.take middle := by
    conv_rhs => rw [← take_append_drop start (xs.take middle)]
    rw [take_take, Nat.min_eq_left h]
  have hswap : (hoisted start middle xs).Perm
      (xs.take start ++ (xs.take middle).drop start ++ xs.drop middle) := by
    simp only [hoisted, append_assoc]
    exact perm_append_comm.append_left _
  rwa [hfirst, take_append_drop] at hswap

lemma map_hoisted (f : α → β) (start middle : Nat) (xs : List α) :
    (hoisted start middle xs).map f = hoisted start middle (xs.map f) := by
  simp [hoisted, map_take, map_drop]

lemma hoisted_append (start middle : Nat) (older xs : List α) :
    hoisted (older.length + start) (older.length + middle) (older ++ xs) =
      older ++ hoisted start middle xs := by
  have htake (n : Nat) : older.take (older.length + n) = older := take_of_length_le (by omega)
  have hdrop (n : Nat) : older.drop (older.length + n) = [] := drop_of_length_le (by omega)
  simp [hoisted, take_append, drop_append, htake, hdrop]

lemma hoisted_between (older xs ys : List α) :
    hoisted older.length (older ++ xs).length (older ++ xs ++ ys) = older ++ ys ++ xs := by
  have h := hoisted_append 0 xs.length older (xs ++ ys)
  rw [Nat.add_zero, ← length_append, ← append_assoc] at h
  rw [h]
  simp [hoisted]

end Hoisted

namespace Diagnostics

variable (ds : Diagnostics)

lemma size_eq : ds.size = ds.entries.toList.length := by simp [size]

@[simp] lemma toList_push (d : Diagnostic) :
    (ds.push d).entries.toList = ds.entries.toList ++ [d] := by simp [push]

@[simp] lemma toList_append (others : Diagnostics) :
    (ds.append others).entries.toList = ds.entries.toList ++ others.entries.toList := by
  simp [append]

lemma toList_hoist (start middle : Nat) : (ds.hoist start middle).entries.toList =
      if start ≤ middle ∧ middle ≤ ds.entries.toList.length then
        hoisted start middle ds.entries.toList else ds.entries.toList := by
  simp only [hoist, size_eq]
  by_cases h : start ≤ middle ∧ middle ≤ ds.entries.toList.length
  · simp only [h, and_self, if_true, hoisted]
  · simp only [h, if_false]

lemma hoist_perm (start middle : Nat) :
    (ds.hoist start middle).entries.toList.Perm ds.entries.toList := by
  rw [toList_hoist]
  by_cases h : start ≤ middle ∧ middle ≤ ds.entries.toList.length
  · simpa only [h, and_self, if_true] using hoisted_perm h.1 ds.entries.toList
  · simp only [h, if_false, List.Perm.refl]

lemma ext_toList {ds es : Diagnostics} (h : ds.entries.toList = es.entries.toList) : ds = es := by
  cases ds
  cases es
  simpa [Array.toList_inj] using h

end Diagnostics

end StaticTyping
