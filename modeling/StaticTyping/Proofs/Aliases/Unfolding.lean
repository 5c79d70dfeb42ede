import StaticTyping.Proofs.Aliases.Meaning
import StaticTyping.Proofs.Types.Equality

/-! The full unfolding of a type expression, as a relation: aliases stand for what their targets unfold
to. A type expression unfolds to one type at most, in which nominal types are known by name only. -/

namespace StaticTyping

open List

namespace Ty

mutual

def forget : Ty → Ty
  | .prim p => .prim p
  | .named head none => .named { head with symbol := none } none
  | .named head (some args) => .named { head with symbol := none } (some (forgetAll args))
  | .union members => .union (forgetAll members)
  | .tuple elements => .tuple (forgetAll elements)
  | .fn params result => .fn (forgetAll params) result.forget
  | .param name => .param name
  | .error => .error
  | .unknown => .unknown

def forgetAll : List Ty → List Ty
  | [] => []
  | t :: rest => t.forget :: forgetAll rest

end

lemma forgetAll_eq_map (types : List Ty) : forgetAll types = types.map forget := by
  induction types with
  | nil => rfl
  | cons t types ih => simp [forgetAll, ih]

lemma forget_named (head : TypeHead) (types : List Ty) :
    (named head (if types.isEmpty then none else some types)).forget =
      .named { head with symbol := none }
        (if (types.map forget).isEmpty then none else some (types.map forget)) := by
  cases types with
  | nil => rfl
  | cons t rest => simp [forget, forgetAll, forgetAll_eq_map]

lemma same_forget (t : Ty) : same t t.forget ∧ same t.forget t := by
  induction t using partsInduction with
  | h t ih =>
    have hall {types : List Ty} (htypes : ∀ x ∈ types, x ∈ t.parts) :
        Forall₂ (same · ·) types (types.map forget) ∧
          Forall₂ (same · ·) (types.map forget) types := by
      rw [forall₂_map_right_iff, forall₂_map_left_iff]
      exact ⟨forall₂_same.mpr fun x hx => (ih x (htypes x hx)).1,
        forall₂_same.mpr fun x hx => (ih x (htypes x hx)).2⟩
    simp only [same_iff_alike]
    match t with
    | .prim p => exact ⟨.prim p, .prim p⟩
    | .named head none => exact ⟨.bare rfl, .bare rfl⟩
    | .named head (some args) =>
      rw [forget, forgetAll_eq_map]
      exact ⟨.named rfl (hall fun _ hx => hx).1, .named rfl (hall fun _ hx => hx).2⟩
    | .union members =>
      rw [forget, forgetAll_eq_map]
      refine ⟨.union (by simp) fun x hx => ?_, .union (by simp) fun x hx => ?_⟩
      · exact ⟨x.forget, mem_map_of_mem hx, (ih x hx).2⟩
      · obtain ⟨y, hy, rfl⟩ := mem_map.mp hx
        exact ⟨y, hy, (ih y hy).1⟩
    | .tuple elements =>
      rw [forget, forgetAll_eq_map]
      exact ⟨.tuple (hall fun _ hx => hx).1, .tuple (hall fun _ hx => hx).2⟩
    | .fn params result =>
      rw [forget, forgetAll_eq_map]
      have hparams := hall fun x (hx : x ∈ params) => .tail _ hx
      exact ⟨.fn hparams.1 (ih result (.head _)).1, .fn hparams.2 (ih result (.head _)).2⟩
    | .param name => exact ⟨.param name, .param name⟩
    | .error => exact ⟨.error, .error⟩
    | .unknown => exact ⟨.unknown, .unknown⟩

lemma same_forget_forget (a b : Ty) : same a.forget b.forget = same a b := by
  rw [Bool.eq_iff_iff]
  constructor
  · exact fun h => same_trans (same_forget a).1 (same_trans h (same_forget b).2)
  · exact fun h => same_trans (same_forget a).2 (same_trans h (same_forget b).1)

lemma unionMembers_forget (t : Ty) : t.forget.unionMembers = t.unionMembers.map forget := by
  match t with
  | .union members => simp only [forget, unionMembers, forgetAll_eq_map]
  | .named head none | .named head (some args) => rfl
  | .prim p | .tuple elements | .fn params result | .param name | .error | .unknown => rfl

lemma insertMember_forget (members : List Ty) (t : Ty) :
    insertMember (members.map forget) t.forget = (insertMember members t).map forget := by
  have hany : (members.map forget).any (· == t.forget) = members.any (· == t) := by
    rw [any_map]
    exact congrArg (members.any ·) (funext fun x => same_forget_forget x t)
  unfold insertMember
  rw [hany]
  split <;> simp

lemma dedup_forget (members : List Ty) : dedup (members.map forget) = (dedup members).map forget := by
  have hfoldl (seen : List Ty) : (members.map forget).foldl insertMember (seen.map forget) =
      (members.foldl insertMember seen).map forget := by
    induction members generalizing seen with
    | nil => rfl
    | cons t rest ih => simp only [map_cons, foldl_cons, insertMember_forget, ih]
  exact hfoldl []

lemma makeUnion_forget (types : List Ty) :
    makeUnion (types.map forget) = (makeUnion types).forget := by
  have hflat : (types.map forget).flatMap unionMembers = (types.flatMap unionMembers).map forget := by
    induction types with
    | nil => rfl
    | cons t rest ih =>
      simp only [map_cons, flatMap_cons, map_append, unionMembers_forget, ih]
  unfold makeUnion
  rw [hflat, dedup_forget]
  match dedup (types.flatMap unionMembers) with
  | [] => rfl
  | [t] => rfl
  | t :: u :: rest =>
    simp only [map_cons, forget, forgetAll]
    rw [forgetAll_eq_map]

end Ty

lemma builtInType?_forget (name : String) (args : List Ty) :
    builtInType? name (args.map .forget) = (builtInType? name args).map .forget := by
  have harg (i : Nat) : ((args.map Ty.forget)[i]?).getD .unknown = (args[i]?.getD .unknown).forget := by
    cases h : args[i]? with
    | none => simp [h, Ty.forget]
    | some t => simp [h]
  unfold builtInType?
  cases Primitive.ofName? name with
  | some p => rfl
  | none =>
    rw [harg, harg]
    by_cases harray : name = Ty.arrayName
    · simp only [if_pos harray]
      rfl
    · by_cases hmap : name = Ty.mapName
      · simp only [if_neg harray, if_pos hmap]
        rfl
      · simp only [if_neg harray, if_neg hmap, Option.map_none]

/-- What a type expression unfolds to where the symbols in `D` are declared. Nominal types stand for
themselves, aliases for what their targets unfold to, and names without a meaning for errors. -/
inductive Unfolds (D : Symbol → Prop) : TypeExpr → Ty → Prop
  | builtIn {span : Span} {name : String} {args : List TypeExpr} {types : List Ty} {ty : Ty}
      (hlength : args.length = types.length)
      (hargs : ∀ a t, (a, t) ∈ args.zip types → Unfolds D a t)
      (hty : builtInType? name types = some ty) : Unfolds D (.named span name args) ty
  | nominal {span : Span} {args : List TypeExpr} {types : List Ty} {symbol : Symbol}
      (hlength : args.length = types.length)
      (hargs : ∀ a t, (a, t) ∈ args.zip types → Unfolds D a t)
      (hname : isBuiltIn symbol.name = false) (hsymbol : D symbol)
      (htarget : symbol.aliasTarget = none) :
      Unfolds D (.named span symbol.name args) (.named ⟨symbol.name, none, symbol.kind == .classType⟩
        (if types.isEmpty then none else some types))
  | expanded {span : Span} {args : List TypeExpr} {symbol : Symbol} {target : TypeExpr} {ty : Ty}
      (hname : isBuiltIn symbol.name = false) (hsymbol : D symbol)
      (htarget : symbol.aliasTarget = some target) (hty : Unfolds D target ty) :
      Unfolds D (.named span symbol.name args) ty
  | unknown {span : Span} {name : String} {args : List TypeExpr} (hname : isBuiltIn name = false)
      (hnone : ∀ symbol, D symbol → symbol.name ≠ name) : Unfolds D (.named span name args) .error
  | union {span : Span} {members : List TypeExpr} {types : List Ty}
      (hlength : members.length = types.length)
      (hmembers : ∀ a t, (a, t) ∈ members.zip types → Unfolds D a t) :
      Unfolds D (.union span members) (.makeUnion types)
  | tuple {span : Span} {elements : List TypeExpr} {types : List Ty}
      (hlength : elements.length = types.length)
      (helements : ∀ a t, (a, t) ∈ elements.zip types → Unfolds D a t) :
      Unfolds D (.tuple span elements) (.tuple types)
  | fn {span : Span} {params : List TypeExpr} {result : TypeExpr} {types : List Ty} {returned : Ty}
      (hlength : params.length = types.length)
      (hparams : ∀ a t, (a, t) ∈ params.zip types → Unfolds D a t)
      (hresult : Unfolds D result returned) :
      Unfolds D (.fn span params result) (.fn types returned)
  | hole {span : Span} : Unfolds D (.hole span) .error

lemma types_eq_of_zip {R : TypeExpr → Ty → Prop} {args : List TypeExpr} {types others : List Ty}
    (hlength : args.length = types.length)
    (hunique : ∀ a t, (a, t) ∈ args.zip types → ∀ u, R a u → t = u)
    (hlength' : args.length = others.length) (hothers : ∀ a t, (a, t) ∈ args.zip others → R a t) :
    types = others := by
  have hleft : Forall₂ (fun a t => ∀ u, R a u → t = u) args types :=
    forall₂_iff_zip.mpr ⟨hlength, fun {a t} => hunique a t⟩
  have hright : Forall₂ R args others := forall₂_iff_zip.mpr ⟨hlength', fun {a t} => hothers a t⟩
  clear hlength hlength' hunique hothers
  induction hleft generalizing others with
  | nil =>
    cases hright
    rfl
  | cons hhead _ ih =>
    cases hright with
    | cons hfirst hrest => rw [hhead _ hfirst, ih hrest]

lemma Unfolds.unique {D : Symbol → Prop} (hD : ∀ a c, D a → D c → a.name = c.name → a = c)
    {t : TypeExpr} {ty other : Ty} (h : Unfolds D t ty) (h' : Unfolds D t other) : ty = other := by
  induction h generalizing other with
  | builtIn hlength hargs hty ih =>
    cases h' with
    | builtIn hlength' hargs' hty' =>
      obtain rfl := types_eq_of_zip hlength (fun a t hat u hu => ih a t hat hu) hlength' hargs'
      exact Option.some.inj (hty.symm.trans hty')
    | nominal _ _ hname | expanded hname | unknown hname =>
      rw [builtInType?_eq_none_iff.mpr hname] at hty
      cases hty
  | @nominal span args types symbol hlength hargs hname hsymbol htarget ih =>
    generalize hsame : symbol.name = name at h'
    cases h' with
    | builtIn _ _ hty =>
      rw [← hsame, builtInType?_eq_none_iff.mpr hname] at hty
      cases hty
    | @nominal _ _ _ symbol' hlength' hargs' hname' hsymbol' htarget' =>
      obtain rfl := hD _ _ hsymbol hsymbol' hsame
      obtain rfl := types_eq_of_zip hlength (fun a t hat u hu => ih a t hat hu) hlength' hargs'
      rfl
    | @expanded _ _ symbol' _ _ _ hsymbol' htarget' =>
      obtain rfl := hD _ _ hsymbol hsymbol' hsame
      rw [htarget] at htarget'
      cases htarget'
    | unknown _ hnone => exact absurd hsame (hnone symbol hsymbol)
  | @expanded span args symbol target ty hname hsymbol htarget hty ih =>
    generalize hsame : symbol.name = name at h'
    cases h' with
    | builtIn _ _ hty =>
      rw [← hsame, builtInType?_eq_none_iff.mpr hname] at hty
      cases hty
    | @nominal _ _ _ symbol' _ _ _ hsymbol' htarget' =>
      obtain rfl := hD _ _ hsymbol hsymbol' hsame
      rw [htarget] at htarget'
      cases htarget'
    | @expanded _ _ symbol' _ _ _ hsymbol' htarget' hty' =>
      obtain rfl := hD _ _ hsymbol hsymbol' hsame
      obtain rfl := Option.some.inj (htarget.symm.trans htarget')
      exact ih hty'
    | unknown _ hnone => exact absurd hsame (hnone symbol hsymbol)
  | @unknown span name args hname hnone =>
    cases h' with
    | builtIn _ _ hty =>
      rw [builtInType?_eq_none_iff.mpr hname] at hty
      cases hty
    | nominal _ _ _ hsymbol | expanded _ hsymbol => exact absurd rfl (hnone _ hsymbol)
    | unknown => rfl
  | union hlength hmembers ih =>
    cases h' with
    | union hlength' hmembers' =>
      rw [types_eq_of_zip hlength (fun a t hat u hu => ih a t hat hu) hlength' hmembers']
  | tuple hlength helements ih =>
    cases h' with
    | tuple hlength' helements' =>
      rw [types_eq_of_zip hlength (fun a t hat u hu => ih a t hat hu) hlength' helements']
  | fn hlength hparams hresult ihparams ihresult =>
    cases h' with
    | fn hlength' hparams' hresult' =>
      rw [types_eq_of_zip hlength (fun a t hat u hu => ihparams a t hat hu) hlength' hparams',
        ihresult hresult']
  | hole =>
    cases h'
    rfl

end StaticTyping
