import Mathlib.Data.List.Forall2
import Mathlib.Data.Nat.Digits.Defs
import StaticTyping.Rule.Literal

/-! Integer literals are held against exact bounds. A numeral of any length is read as the number that
its digits stand for, and a literal is reported just when that number, with its sign, lies outside the
bounds of the width it is given. -/

namespace StaticTyping

open List Option Rule Primitive Nat

namespace Numeral

/-- The character is the digit `d` of the radix. Letters may be of either case. -/
def IsDigit (radix d : Nat) (c : Char) : Prop :=
  d < radix ∧ (c = d.digitChar ∨ c = d.digitChar.toUpper)

/-- What the digits may come after, and the radix that they then have. -/
def openings : List (List Char × Nat) :=
  [([], 10), (['0', 'x'], 16), (['0', 'X'], 16), (['0', 'o'], 8), (['0', 'O'], 8), (['0', 'b'], 2),
    (['0', 'B'], 2)]

/-- The text is a numeral for the value: an opening and at least one digit of its radix, with
underscores anywhere. -/
def Denotes (text : String) (value : Nat) : Prop :=
  ∃ opening radix digits chars, (opening, radix) ∈ openings ∧ digits ≠ [] ∧
    text.toList.filter (· != '_') = opening ++ chars ∧ List.Forall₂ (IsDigit radix) digits chars ∧
    value = Nat.ofDigits radix digits.reverse

variable {radix d : Nat} {c : Char} {digits : List Nat} {chars : List Char}

lemma toLower_digit (hd : d < 16) (hc : c = d.digitChar ∨ c = d.digitChar.toUpper) :
    c.toLower = d.digitChar := by
  rcases hc with rfl | rfl <;> revert d <;> decide

lemma digit?_digitChar (hradix : radix ≤ 16) (hd : d < radix) :
    digit? radix d.digitChar = some d := by
  have hvalue : ∀ d < 16, digit? 16 d.digitChar = some d := by decide
  have hany (value : Option Nat) (h : value.filter (· < 16) = some d) :
      value.filter (· < radix) = some d := by
    simp_all
  exact hany _ (hvalue d (lt_of_lt_of_le hd hradix))

lemma map_toLower_digits (hradix : radix ≤ 16) (h : Forall₂ (IsDigit radix) digits chars) :
    chars.map Char.toLower = digits.map digitChar := by
  induction h with
  | nil => rfl
  | cons hd _ ih =>
    rw [map_cons, map_cons, ih, toLower_digit (lt_of_lt_of_le hd.1 hradix) hd.2]

/-- Digits are read from the left, so that what was read is shifted before each of them. -/
lemma foldlM_digits (hradix : radix ≤ 16) (hdigits : ∀ d ∈ digits, d < radix) (start : Nat) :
    (digits.map digitChar).foldlM (fun value c => (digit? radix c).map (value * radix + ·)) start =
      some (digits.foldl (fun value d => value * radix + d) start) := by
  induction digits generalizing start with
  | nil => rfl
  | cons d digits ih =>
    rw [map_cons, foldlM_cons, digit?_digitChar hradix (hdigits d (by simp))]
    exact ih (fun e he => hdigits e (mem_cons_of_mem _ he)) _

lemma ofDigits_reverse (radix : Nat) (digits : List Nat) :
    ofDigits radix digits.reverse = digits.foldl (fun value d => value * radix + d) 0 := by
  rw [ofDigits_eq_foldr, foldr_reverse]
  congr 1
  funext value d
  rw [cast_id, mul_comm, add_comm]

lemma unsigned?_digits (hradix : radix ≤ 16) (hdigits : ∀ d ∈ digits, d < radix)
    (hne : digits ≠ []) :
    unsigned? radix (digits.map digitChar) = some (ofDigits radix digits.reverse) := by
  obtain ⟨d, digits, rfl⟩ := exists_cons_of_ne_nil hne
  have hplus : ∀ d < 16, d.digitChar ≠ '+' := by decide
  have hfirst : d.digitChar ≠ '+' := hplus d (lt_of_lt_of_le (hdigits d (by simp)) hradix)
  rw [ofDigits_reverse, ← foldlM_digits hradix hdigits 0, map_cons]
  unfold unsigned?
  split
  · next heq => exact (hfirst (cons.inj heq).1).elim
  · rfl

lemma radixOf_decimal (hdigits : ∀ d ∈ digits, d < 10) :
    radixOf (digits.map digitChar) = (10, digits.map digitChar) := by
  have hletter : ∀ d < 10, d.digitChar ∉ ['x', 'o', 'b'] := by decide
  have hsecond : ∀ a b rest, digits.map digitChar = a :: b :: rest → b ∉ ['x', 'o', 'b'] := by
    intro a b rest heq
    have hb : b ∈ digits.map digitChar := heq ▸ by simp
    obtain ⟨d, hd, rfl⟩ := mem_map.mp hb
    exact hletter d (hdigits d hd)
  unfold radixOf
  split
  · next heq => exact absurd (by simp) (hsecond _ _ _ heq)
  · next heq => exact absurd (by simp) (hsecond _ _ _ heq)
  · next heq => exact absurd (by simp) (hsecond _ _ _ heq)
  · rfl

lemma radixOf_opening {opening : List Char} (h : (opening, radix) ∈ openings)
    (hdigits : ∀ d ∈ digits, d < radix) : radix ≤ 16 ∧
      radixOf (opening.map Char.toLower ++ digits.map digitChar) =
        (radix, digits.map digitChar) := by
  simp only [openings, mem_cons, Prod.mk.injEq, not_mem_nil, or_false] at h
  rcases h with ⟨rfl, rfl⟩ | ⟨rfl, rfl⟩ | ⟨rfl, rfl⟩ | ⟨rfl, rfl⟩ | ⟨rfl, rfl⟩ | ⟨rfl, rfl⟩ | ⟨rfl, rfl⟩
  · exact ⟨by decide, radixOf_decimal hdigits⟩
  all_goals exact ⟨by decide, rfl⟩

lemma Denotes.magnitude?_eq {text : String} {value : Nat} (h : Denotes text value) :
    magnitude? text = if value < 2 ^ 128 then some value else none := by
  obtain ⟨opening, radix, digits, chars, hopening, hne, htext, hchars, rfl⟩ := h
  have hdigits : ∀ d ∈ digits, d < radix := ((forall₂_and_left _ _).mp hchars).1
  obtain ⟨hradix, hradixOf⟩ := radixOf_opening hopening hdigits
  have hcleaned : cleaned text = opening.map Char.toLower ++ digits.map digitChar := by
    rw [cleaned, htext, map_append, map_toLower_digits hradix hchars]
  rw [magnitude?, hcleaned, hradixOf]
  show (unsigned? radix _).filter _ = _
  rw [unsigned?_digits hradix hdigits hne, filter_some]
  simp only [decide_eq_true_eq]
  rfl

end Numeral

def signedValue (magnitude : Nat) (negative : Bool) : Int :=
  if negative then -(magnitude : Int) else magnitude

variable {p : Primitive}

lemma Primitive.bounds?_isSome (h : p.isInteger) : ∃ low high, p.bounds? = some (low, high) := by
  obtain ⟨layout, hlayout⟩ := isSome_iff_exists.mp h
  exact ⟨_, _, by rw [bounds?, hlayout]; rfl⟩

lemma Primitive.fits_iff_bounds {low : Int} {high : Nat}
    (h : p.bounds? = some (low, high)) (magnitude : Nat) (negative : Bool) :
    p.fits magnitude negative ↔
      low ≤ signedValue magnitude negative ∧ signedValue magnitude negative ≤ high := by
  cases p <;> simp only [bounds?, intLayout?, map_some, map_none, some.injEq, reduceCtorEq] at h
  all_goals
    obtain ⟨rfl, rfl⟩ := h
    cases negative <;> simp [fits, intLayout?, signedValue] <;> omega

lemma Primitive.not_fits_of_le {magnitude : Nat} (h : 2 ^ 128 ≤ magnitude)
    (negative : Bool) : ¬p.fits magnitude negative := by
  cases p <;> cases negative <;> simp [fits, intLayout?] <;> omega

namespace Rule

lemma offered?_accepted {accept : Primitive → Bool} {hint : Ty}
    (h : offered? accept hint = some p) : accept p := by
  cases hint with
  | prim q =>
    simp only [offered?] at h
    split at h
    · next hq => exact some.inj h ▸ hq
    · cases h
  | union members =>
    obtain ⟨m, _, hm⟩ := exists_of_findSome?_eq_some h
    exact (filter_eq_some_iff.mp hm).2
  | _ => cases h

lemma integerWidth_isInteger {options : Options} (h : options.validate = .ok ())
    (hint : Option Ty) : (integerWidth options hint).isInteger := by
  have hdefault : options.defaultInteger.isInteger := by
    by_contra hnot
    rw [Options.validate, if_pos (by simpa using hnot)] at h
    cases h
  unfold integerWidth
  cases hoffer : hint.bind (offered? isInteger) with
  | none => exact hdefault
  | some p =>
    obtain ⟨ty, _, hty⟩ := bind_eq_some_iff.mp hoffer
    exact offered?_accepted hty

lemma fitsWidth_iff {text : String} {value : Nat} (htext : Numeral.Denotes text value)
    (width : Primitive) (negative : Bool) : fitsWidth width text negative ↔ width.fits value negative := by
  rw [fitsWidth, htext.magnitude?_eq]
  split
  · next heq =>
    split at heq
    · rw [some.inj heq]
    · cases heq
  · next heq =>
    split at heq
    · cases heq
    · next hlarge => simpa using not_fits_of_le (Nat.le_of_not_lt hlarge) negative

lemma literalType_int_run (options : Options) (text : String) (hint : Option Ty) (span : Span)
    (negative : Bool) (visits : Visits) (s : State) :
    ((literalType options (.int text) hint span negative).toCheck visits).run s =
      (.prim (integerWidth options hint),
        if fitsWidth (integerWidth options hint) text negative then s
        else
          let d := (Finding.integerOutOfRange negative text (integerWidth options hint)).toDiagnostic span
          { s with diagnostics := s.diagnostics.push d }) := by
  simp only [literalType]
  cases fitsWidth (integerWidth options hint) text negative <;> rfl

end Rule

/-- A numeral of any length is read exactly below 2 ^ 128 and not at all from there on. Whatever
options, hint and sign it comes with, the literal is given an integer type, and one diagnostic is
reported if its value is outside the bounds of that type and none otherwise. -/
theorem integerLiteral_range_exact {text : String} {value : Nat} (htext : Numeral.Denotes text value) :
    Numeral.magnitude? text = (if value < 2 ^ 128 then some value else none) ∧
    ∀ (options : Options) (hint : Option Ty) (span : Span) (negative : Bool),
      options.validate = .ok () →
      ∃ (width : Primitive) (low : Int) (high : Nat) (d : Diagnostic),
        width.isInteger ∧ width.bounds? = some (low, high) ∧
        d.code.text = "E2401" ∧ d.span = some span ∧
        ∀ visits s, ((Rule.literalType options (.int text) hint span negative).toCheck visits).run s =
          (.prim width,
            if low ≤ signedValue value negative ∧ signedValue value negative ≤ high then s
            else { s with diagnostics := s.diagnostics.push d }) := by
  refine ⟨htext.magnitude?_eq, fun options hint span negative hoptions => ?_⟩
  have hwidth := integerWidth_isInteger hoptions hint
  obtain ⟨low, high, hbounds⟩ := bounds?_isSome hwidth
  refine ⟨integerWidth options hint, low, high,
    (Finding.integerOutOfRange negative text (integerWidth options hint)).toDiagnostic span,
    hwidth, hbounds, rfl, rfl, fun visits s => ?_⟩
  have hfits := (fitsWidth_iff htext _ negative).trans (fits_iff_bounds hbounds value negative)
  rw [literalType_int_run]
  simp only [hfits]

/-- The least value of `i8`, written with its sign apart, in capitals and with an underscore. -/
theorem integerLiteral_range_exact_lowest :
    Numeral.Denotes "0X_80" 128 ∧ Options.validate {} = .ok () ∧
      Numeral.magnitude? "0X_80" = some 128 ∧
      ∃ (width : Primitive) (low : Int) (high : Nat) (d : Diagnostic),
        width.isInteger ∧ width.bounds? = some (low, high) ∧
        d.code.text = "E2401" ∧ d.span = some {} ∧
        ∀ visits s,
          ((Rule.literalType {} (.int "0X_80") (some (.prim .i8)) {} true).toCheck visits).run s =
            (.prim width,
              if low ≤ signedValue 128 true ∧ signedValue 128 true ≤ high then s
              else { s with diagnostics := s.diagnostics.push d }) := by
  have htext : Numeral.Denotes "0X_80" 128 :=
    ⟨['0', 'X'], 16, [8, 0], ['8', '0'], by decide, by decide, by decide,
      .cons ⟨by decide, by decide⟩ (.cons ⟨by decide, by decide⟩ .nil), rfl⟩
  have hexact := integerLiteral_range_exact htext
  exact ⟨htext, rfl, hexact.1, hexact.2 {} (some (.prim .i8)) {} true rfl⟩

end StaticTyping
