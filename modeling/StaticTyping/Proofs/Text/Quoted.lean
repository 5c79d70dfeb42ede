import StaticTyping.Text.Quoted
import Mathlib.Data.List.Basic

/-! Names in quotes can be read back. A quote inside a name has a backslash before it, but so may the one
that ends a name, as a backslash is not escaped. A reader who takes the one for the other is out of step
from there on: where a name ends a name begins, and the text never ends for both readings. -/

namespace StaticTyping.Text

open List

lemma escape_of_not_mem {cs : List Char} (h : '\x27' ∉ cs) : escape cs = cs := by
  induction cs with
  | nil => rfl
  | cons c rest ih =>
    rw [mem_cons, not_or] at h
    rw [escape, if_neg (Ne.symm h.1), ih h.2]

/-- No escaped text begins with a quote, unless it is empty and the quote comes after it. -/
lemma eq_nil_of_escape_append {y r r' : List Char} (h : '\x27' :: r = escape y ++ '\x27' :: r') :
    y = [] ∧ r = r' := by
  cases y with
  | nil => simpa [escape] using h
  | cons c rest =>
    rw [escape] at h
    split at h
    · simp at h
    · rename_i hc
      exact absurd (cons.inj h).1.symm hc

/-- Two readings of a name end at the same quote, or one of them takes for an escaped quote what ends the
name for the other, since a backslash stands before it. -/
lemma escape_append_inj {x y r r' : List Char}
    (h : escape x ++ '\x27' :: r = escape y ++ '\x27' :: r') :
    (x = y ∧ r = r') ∨ (x.getLast? = some '\x5c' ∧ ∃ z, r = escape z ++ '\x27' :: r') ∨
      ('\x27' ∈ x ∧ ∃ z, r' = escape z ++ '\x27' :: r) := by
  induction x generalizing y with
  | nil =>
    obtain ⟨rfl, hr⟩ := eq_nil_of_escape_append h
    exact .inl ⟨rfl, hr⟩
  | cons c rest ih =>
    cases y with
    | nil => exact absurd (eq_nil_of_escape_append h.symm).1 (cons_ne_nil _ _)
    | cons d rest' =>
      by_cases hc : c = '\x27' <;> by_cases hd : d = '\x27' <;>
        simp only [escape, hc, hd, if_true, if_false, cons_append, cons.injEq, true_and] at h ⊢
      · rcases ih h with ⟨rfl, hr⟩ | ⟨hlast, hz⟩ | ⟨-, hz⟩
        · exact .inl ⟨rfl, hr⟩
        · exact .inr (.inl ⟨by rw [getLast?_cons, hlast]; rfl, hz⟩)
        · exact .inr (.inr ⟨.head _, hz⟩)
      · obtain ⟨-, rfl⟩ := eq_nil_of_escape_append h.2
        exact .inr (.inr ⟨.head _, rest, rfl⟩)
      · obtain ⟨rfl, hr⟩ := eq_nil_of_escape_append h.2.symm
        exact .inr (.inl ⟨congrArg some h.1, rest', hr.symm⟩)
      · obtain ⟨rfl, h⟩ := h
        rcases ih h with ⟨rfl, hr⟩ | ⟨hlast, hz⟩ | ⟨hquote, hz⟩
        · exact .inl ⟨⟨rfl, rfl⟩, hr⟩
        · exact .inr (.inl ⟨by rw [getLast?_cons, hlast]; rfl, hz⟩)
        · exact .inr (.inr ⟨.tail _ hquote, hz⟩)

lemma toList_quoted (name : String) :
    (quoted name).toList = '\x27' :: (escape name.toList ++ ['\x27']) := by
  simp [quoted]

lemma quoted_injective : Function.Injective quoted := by
  intro a b h
  have hlists := congrArg String.toList h
  rw [toList_quoted, toList_quoted, cons_inj_right] at hlists
  rcases escape_append_inj hlists with ⟨hname, -⟩ | ⟨-, z, hz⟩ | ⟨-, z, hz⟩
  · exact String.toList_inj.mp hname
  all_goals simp at hz

/-- What stands before a name if so many are still to come. -/
def separator : List String → List Char
  | [] => [' ', 'a', 'n', 'd', ' ']
  | _ :: _ => [',', ' ']

/-- The names after the first one, each with what stands before it. -/
def following : List String → List Char
  | [] => []
  | name :: rest => separator rest ++ '\x27' :: (escape name.toList ++ '\x27' :: following rest)

lemma toList_joinQuoted (first : String) (rest : List String) :
    (joinQuoted (first :: rest)).toList =
      '\x27' :: (escape first.toList ++ '\x27' :: following rest) := by
  induction rest generalizing first with
  | nil => rw [joinQuoted, toList_quoted, following]
  | cons name rest ih =>
    cases rest with
    | nil => simp [joinQuoted, toList_quoted, following, separator]
    | cons last rest =>
      have hstep : joinQuoted (first :: name :: last :: rest) =
          quoted first ++ ", " ++ joinQuoted (name :: last :: rest) := rfl
      simp [hstep, toList_quoted, ih, following, separator]

/-- Where one reading has just ended a name, the other one has not just begun one. -/
lemma following_ne (xs ys : List String) (y : List Char) :
    following xs ≠ escape y ++ '\x27' :: following ys := by
  induction hlength : xs.length + ys.length using Nat.strongRecOn generalizing xs ys y with
  | _ n ih =>
    intro h
    cases xs with
    | nil => simp [following] at h
    | cons name rest =>
      have hplain : '\x27' ∉ separator rest ∧ (separator rest).getLast? ≠ some '\x5c' := by
        cases rest <;> simp [separator]
      rw [following, ← escape_of_not_mem hplain.1] at h
      -- What lies between the two quotes is a separator, so that both readings meet the next quote.
      rcases escape_append_inj h with ⟨-, hrest⟩ | ⟨hlast, -⟩ | ⟨hquote, -⟩
      · exact ih (ys.length + rest.length) (by simp at hlength; omega) ys rest name.toList rfl
          hrest.symm
      · exact hplain.2 hlast
      · exact hplain.1 hquote

lemma following_injective : Function.Injective following := by
  intro xs
  induction xs with
  | nil =>
    intro ys h
    cases ys with
    | nil => rfl
    | cons => simp [following] at h
  | cons name rest ih =>
    intro ys h
    cases ys with
    | nil => simp [following] at h
    | cons name' rest' =>
      have hnames : escape name.toList ++ '\x27' :: following rest =
          escape name'.toList ++ '\x27' :: following rest' := by
        cases rest <;> cases rest' <;> simp_all [following, separator]
      rcases escape_append_inj hnames with ⟨hname, hrest⟩ | ⟨-, z, hz⟩ | ⟨-, z, hz⟩
      · rw [String.toList_inj.mp hname, ih hrest]
      · exact absurd hz (following_ne rest rest' z)
      · exact absurd hz (following_ne rest' rest z)

/-- No two lists of names are shown alike, whatever is in the names, and no two names. -/
theorem joinQuoted_unambiguous : (∀ xs ys : List String, joinQuoted xs = joinQuoted ys ↔ xs = ys) ∧
      ∀ a b : String, quoted a = quoted b ↔ a = b := by
  refine ⟨fun xs ys => ⟨fun h => ?_, congrArg _⟩, fun a b => quoted_injective.eq_iff⟩
  have hlists := congrArg String.toList h
  cases xs with
  | nil =>
    cases ys with
    | nil => rfl
    | cons => simp [toList_joinQuoted, joinQuoted] at hlists
  | cons first rest =>
    cases ys with
    | nil => simp [toList_joinQuoted, joinQuoted] at hlists
    | cons first' rest' =>
      rw [toList_joinQuoted, toList_joinQuoted, cons_inj_right] at hlists
      rcases escape_append_inj hlists with ⟨hfirst, hrest⟩ | ⟨-, z, hz⟩ | ⟨-, z, hz⟩
      · rw [String.toList_inj.mp hfirst, following_injective hrest]
      · exact absurd hz (following_ne rest rest' z)
      · exact absurd hz (following_ne rest' rest z)

/-- A name that ends in a backslash is told from a name with a quote in it. -/
example : joinQuoted ["a\x5c", "b"] = "'a\x5c' and 'b'" ∧ joinQuoted ["a', ", "b"] = "'a\x5c', ' and 'b'" := by
  decide

end StaticTyping.Text
