import StaticTyping.Proofs.Scopes.Linked

/-! How narrowing ends. It ends in all scopes from the innermost one out to the one that declares the
name, so that the declared type is seen, also after scopes have been left up to that one. -/

namespace StaticTyping

open List StaticTyping.Frame Nat

variable {name : String} {frames : List Frame} {n : Nat}

lemma boundIn_drop (h : n ≤ frames.findIdx (·.declares name)) :
    boundIn (frames.drop n) name = boundIn frames name := by
  induction n generalizing frames with
  | zero => rfl
  | succ n ih =>
    cases frames with
    | nil => rfl
    | cons frame rest =>
      rw [findIdx_cons] at h
      cases hdeclares : frame.declares name with
      | true => simp [hdeclares] at h
      | false =>
        have hlookup : frame.values.lookup name = none := by simpa [declares] using hdeclares
        rw [drop_succ_cons, ih (by simpa [hdeclares] using h), boundIn_cons, hlookup,
          Option.none_or]

namespace ScopeStack

lemma getElem?_clearFrames (name : String) (frames : List Frame) (place : Nat) :
    (clearFrames name frames)[place]? = frames[place]?.map fun frame =>
      if place ≤ frames.findIdx (·.declares name) then frame.forget name else frame := by
  induction frames generalizing place with
  | nil => rfl
  | cons frame rest ih =>
    rw [clearFrames, findIdx_cons]
    cases place with
    | zero => simp
    | succ place => cases frame.declares name <;> simp [ih]

lemma drop_clearFrames (h : n ≤ frames.findIdx (·.declares name)) :
    (clearFrames name frames).drop n = clearFrames name (frames.drop n) := by
  induction n generalizing frames with
  | zero => rfl
  | succ n ih =>
    cases frames with
    | nil => rfl
    | cons frame rest =>
      rw [findIdx_cons] at h
      cases hdeclares : frame.declares name with
      | true => simp [hdeclares] at h
      | false => simpa [clearFrames, hdeclares] using ih (by simpa [hdeclares] using h)

/-- The root is never left. -/
lemma frames_iterate_pop (s : ScopeStack) (n : Nat) :
    (pop^[n] s).frames = s.frames.drop (min n s.outer.length) := by
  induction n generalizing s with
  | zero => simp
  | succ n ih =>
    obtain ⟨inner, outer⟩ := s
    rw [Function.iterate_succ_apply, ih]
    cases outer with
    | nil => simp [pop]
    | cons frame rest => simp [pop, frames, succ_min_succ]

end ScopeStack

/-- The type that a symbol is declared with, if there is one. -/
def SymbolTable.declaredType (table : SymbolTable) :
    Option SymbolId → Except UnknownSymbol (Option Ty)
  | none => .ok none
  | some id =>
    match table.get? id with
    | some symbol => .ok (some symbol.tyOrUnknown)
    | none => .error ⟨id⟩

namespace ScopeStack

lemma tracked?_iterate_pop (s : ScopeStack) (h : n ≤ s.frames.findIdx (·.declares name)) :
    (pop^[n] (s.clearNarrowing name)).tracked? name = (s.lookupValue name).map .declared := by
  have hkept : (s.clearNarrowing name).outer.length = s.outer.length := by
    have hlength := (keeps_clearFrames name s.frames).length_eq
    exact succ.inj hlength.symm
  have hmin := (min_le_left n s.outer.length).trans h
  have hframes : (s.clearNarrowing name).frames = clearFrames name s.frames := rfl
  rw [tracked?, frames_iterate_pop, hkept, hframes, drop_clearFrames hmin, tracked?_clearFrames,
    boundIn_drop hmin]
  rfl

lemma lookupValue_iterate_pop (s : ScopeStack) (h : n ≤ s.frames.findIdx (·.declares name)) :
    (pop^[n] s).lookupValue name = s.lookupValue name := by
  have hmin := (min_le_left n s.outer.length).trans h
  have hbound := boundIn_drop hmin
  rwa [← frames_iterate_pop] at hbound

/-- What it is to end the narrowing of a name, for all scopes. What is bound stays bound, other names
stay narrowed, and so does the name itself in the scopes around the one that declares it. At once,
and when scopes are left one by one down to that scope, the name is not narrowed, is bound to what it
was, and has the type of that symbol. -/
theorem clearNarrowing_exact (s : ScopeStack) (table : SymbolTable) (name : String) :
    let cleared := s.clearNarrowing name
    let declaring := s.frames.findIdx (·.declares name)
    cleared.frames.map Frame.bindings = s.frames.map Frame.bindings ∧
      (∀ (place : Nat) other, other ≠ name → cleared.frames[place]?.map (·.narrowed.lookup other) =
        s.frames[place]?.map (·.narrowed.lookup other)) ∧
      (∀ place, declaring < place → cleared.frames[place]? = s.frames[place]?) ∧
      ∀ left ≤ declaring, (pop^[left] cleared).isNarrowed name = false ∧
        (pop^[left] s).lookupValue name = s.lookupValue name ∧
        (pop^[left] cleared).lookupValue name = s.lookupValue name ∧
        (pop^[left] cleared).valueType table name = table.declaredType (s.lookupValue name) := by
  intro cleared declaring
  have hplace (place : Nat) : cleared.frames[place]? = s.frames[place]?.map fun frame =>
      if place ≤ declaring then frame.forget name else frame :=
    getElem?_clearFrames name s.frames place
  have hbindings : cleared.frames.map bindings = s.frames.map bindings :=
    bindings_clearFrames name s.frames
  refine ⟨hbindings, fun place other hne => ?_, fun place hlt => ?_, fun left hle => ?_⟩
  · rw [hplace, Option.map_map]
    congr 1
    funext frame
    split
    · simp [forget, lookup_filter_ne, hne]
    · rfl
  · rw [hplace]
    simp [not_le.mpr hlt]
  · have htracked := tracked?_iterate_pop s hle
    have hdeclaring : cleared.frames.findIdx (·.declares name) = declaring := by
      have hdeclares := congrArg (map fun b => (b.1.lookup name).isSome) hbindings
      rw [map_map, map_map] at hdeclares
      have hidx := congrArg (findIdx id) hdeclares
      rwa [findIdx_map, findIdx_map] at hidx
    have hlookup : cleared.lookupValue name = s.lookupValue name :=
      lookupValue_of_keeps (keeps_clearFrames name s.frames) name
    refine ⟨?_, lookupValue_iterate_pop s hle, ?_, ?_⟩
    · rw [isNarrowed, htracked]
      cases s.lookupValue name <;> rfl
    · rw [lookupValue_iterate_pop cleared (hdeclaring ▸ hle), hlookup]
    · rw [valueType, htracked]
      cases s.lookupValue name <;> rfl

/-- A name that is declared in two scopes and narrowed in all, and that is left for the inner one of
the two. -/
theorem clearNarrowing_exact_shadowed :
    let s : ScopeStack := {
      inner := { narrowed := [("x", .null), ("y", .bool)] }
      outer := [{ narrowed := [("x", .string)] }, { values := [("x", ⟨1⟩)], narrowed := [("x", .bool)] },
        { values := [("x", ⟨0⟩)], narrowed := [("x", .null)] }] }
    let table : SymbolTable := ⟨#[{ name := "x", kind := .value }, { name := "x", kind := .value }]⟩
    s.frames.findIdx (·.declares "x") = 2 ∧
      (s.clearNarrowing "x").frames[0]?.map (·.narrowed.lookup "y") =
        s.frames[0]?.map (·.narrowed.lookup "y") ∧
      (s.clearNarrowing "x").frames[3]? = s.frames[3]? ∧
      (pop^[2] (s.clearNarrowing "x")).valueType table "x" = table.declaredType (some ⟨1⟩) := by
  intro s table
  obtain ⟨-, hothers, houter, hleft⟩ := clearNarrowing_exact s table "x"
  exact ⟨by decide, hothers 0 "y" (by decide), houter 3 (by decide), (hleft 2 (by decide)).2.2.2⟩

end ScopeStack

end StaticTyping
