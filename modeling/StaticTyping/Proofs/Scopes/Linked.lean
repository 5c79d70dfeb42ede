import StaticTyping.Proofs.Scopes.Lookup

/-! Scopes kept in the order in which they were entered, each with a link to the one around it. A
declaration changes the last of them. Names are looked up along the links, and narrowing ends from
the last scope back. Both ways lead over the frames of the nested scopes. -/

namespace StaticTyping

open List ScopeStack StaticTyping.Frame

variable {name : String}

/-- What may be done to scopes. -/
inductive ScopeOp where
  | push | pop
  | declareValue (name : String) (id : SymbolId)
  | declareType (name : String) (id : SymbolId)
  | narrow (name : String) (ty : Ty)
  | clearNarrowing (name : String)

/-- A declaration that fails changes nothing. -/
def ScopeStack.apply (s : ScopeStack) : ScopeOp → ScopeStack
  | .push => s.push
  | .pop => s.pop
  | .declareValue name id => (s.declareValue name id).toOption.getD s
  | .declareType name id => (s.declareType name id).toOption.getD s
  | .narrow name ty => s.narrow name ty
  | .clearNarrowing name => s.clearNarrowing name

/-- What a scope binds, whatever is narrowed in it. -/
def Frame.bindings (frame : Frame) : List (String × SymbolId) × List (String × SymbolId) :=
  (frame.values, frame.types)

/-- A scope, and where the one around it stands. -/
structure LinkedScope extends Frame where
  parent : Option Nat := none

/-- The root comes first, and the innermost scope last. -/
@[ext] structure LinkedScopes where
  scopes : List LinkedScope := [{}]

/-- A name that is bound already stays bound as it is. -/
def declareIn (bound : List (String × SymbolId)) (name : String) (id : SymbolId) :
    Except Redeclaration Unit × List (String × SymbolId) :=
  match bound.lookup name with
  | some existing => (.error ⟨existing⟩, bound)
  | none => (.ok (), (name, id) :: bound)

/-- The first scope with a narrowed or a declared type counts, and in a scope the narrowed one. -/
def typeAlong (table : SymbolTable) (name : String) :
    List LinkedScope → Except UnknownSymbol (Option Ty)
  | [] => .ok none
  | scope :: rest =>
    match scope.narrowed.lookup name, scope.values.lookup name with
    | some ty, _ => .ok (some ty)
    | none, some id =>
      match table.get? id with
      | some symbol => .ok (some symbol.tyOrUnknown)
      | none => .error ⟨id⟩
    | none, none => typeAlong table name rest

def narrowedAlong (name : String) : List LinkedScope → Bool
  | [] => false
  | scope :: rest =>
    if (scope.narrowed.lookup name).isSome then true
    else if (scope.values.lookup name).isSome then false
    else narrowedAlong name rest

namespace LinkedScopes

def depth (s : LinkedScopes) : Nat := s.scopes.length

def current (s : LinkedScopes) : Nat := s.scopes.length - 1

def push (s : LinkedScopes) : LinkedScopes := ⟨s.scopes ++ [{ parent := some s.current }]⟩

def pop (s : LinkedScopes) : LinkedScopes := if 1 < s.depth then ⟨s.scopes.dropLast⟩ else s

def innermost (s : LinkedScopes) : LinkedScope := s.scopes[s.current]?.getD {}

def setInnermost (s : LinkedScopes) (scope : LinkedScope) : LinkedScopes :=
  ⟨s.scopes.set s.current scope⟩

/-- A declaration answers whether the name was free, next to the scopes that it leaves. -/
def declareValue (s : LinkedScopes) (name : String) (id : SymbolId) :
    Except Redeclaration Unit × LinkedScopes :=
  let scope := s.innermost
  match declareIn scope.values name id with
  | (.error e, values) => (.error e, s.setInnermost { scope with values })
  | (.ok _, values) =>
    let narrowed := scope.narrowed.filter (·.1 != name)
    (.ok (), s.setInnermost { scope with values, narrowed })

def declareType (s : LinkedScopes) (name : String) (id : SymbolId) :
    Except Redeclaration Unit × LinkedScopes :=
  let (answer, types) := declareIn s.innermost.types name id
  (answer, s.setInnermost { s.innermost with types })

def narrow (s : LinkedScopes) (name : String) (ty : Ty) : LinkedScopes :=
  let others := s.innermost.narrowed.filter (·.1 != name)
  s.setInnermost { s.innermost with narrowed := (name, ty) :: others }

/-- Ends the narrowing of a name in scopes that are given from the last one back. -/
def clearFrom (name : String) : List LinkedScope → List LinkedScope
  | [] => []
  | scope :: rest =>
    { scope with narrowed := scope.narrowed.filter (·.1 != name) } ::
      if (scope.values.lookup name).isSome then rest else clearFrom name rest

def clearNarrowing (s : LinkedScopes) (name : String) : LinkedScopes :=
  ⟨(clearFrom name s.scopes.reverse).reverse⟩

def apply (s : LinkedScopes) : ScopeOp → LinkedScopes
  | .push => s.push
  | .pop => s.pop
  | .declareValue name id => (s.declareValue name id).2
  | .declareType name id => (s.declareType name id).2
  | .narrow name ty => s.narrow name ty
  | .clearNarrowing name => s.clearNarrowing name

/-- The scopes along the links from a place on, if the way ends within so many steps. -/
def walkFrom (scopes : List LinkedScope) : Nat → Option Nat → Option (List LinkedScope)
  | _, none => some []
  | 0, some _ => none
  | steps + 1, some place => do
    let scope ← scopes[place]?
    let rest ← walkFrom scopes steps scope.parent
    return scope :: rest

def walk (s : LinkedScopes) : Option (List LinkedScope) :=
  walkFrom s.scopes s.depth (some s.current)

-- Lookups follow the links, so they have an answer only where these lead to the root.

def lookupValue (s : LinkedScopes) (name : String) : Option (Option SymbolId) :=
  s.walk.map fun scopes => scopes.findSome? (·.values.lookup name)

def lookupType (s : LinkedScopes) (name : String) : Option (Option SymbolId) :=
  s.walk.map fun scopes => scopes.findSome? (·.types.lookup name)

def valueType (s : LinkedScopes) (table : SymbolTable) (name : String) :
    Option (Except UnknownSymbol (Option Ty)) :=
  s.walk.map (typeAlong table name)

def isNarrowed (s : LinkedScopes) (name : String) : Option Bool :=
  s.walk.map (narrowedAlong name)

def placeBefore : Nat → Option Nat
  | 0 => none
  | place + 1 => some place

/-- Frames, given from the inside out, that are linked one to the next. -/
def ofFrames (frames : List Frame) : LinkedScopes :=
  ⟨frames.reverse.mapIdx fun place frame => ⟨frame, placeBefore place⟩⟩

lemma scopes_ofFrames_cons (frame : Frame) (frames : List Frame) :
    (ofFrames (frame :: frames)).scopes =
      (ofFrames frames).scopes ++ [⟨frame, placeBefore frames.length⟩] := by
  simp [ofFrames, mapIdx_concat]

@[simp] lemma depth_ofFrames (frames : List Frame) : (ofFrames frames).depth = frames.length := by
  simp [depth, ofFrames]

@[simp] lemma current_ofFrames_cons (frame : Frame) (frames : List Frame) :
    (ofFrames (frame :: frames)).current = frames.length := by
  simp [current, ofFrames]

@[simp] lemma innermost_ofFrames_cons (frame : Frame) (frames : List Frame) :
    (ofFrames (frame :: frames)).innermost = ⟨frame, placeBefore frames.length⟩ := by
  have hlength : (ofFrames frames).scopes.length = frames.length := depth_ofFrames frames
  simp [innermost, scopes_ofFrames_cons, ← hlength]

@[simp] lemma setInnermost_ofFrames_cons (frame inner : Frame) (frames : List Frame) :
    (ofFrames (frame :: frames)).setInnermost ⟨inner, placeBefore frames.length⟩ =
      ofFrames (inner :: frames) := by
  have hlength : (ofFrames frames).scopes.length = frames.length := depth_ofFrames frames
  ext1
  simp [setInnermost, scopes_ofFrames_cons, ← hlength]

lemma clearFrom_ofFrames (name : String) (frames : List Frame) :
    clearFrom name (ofFrames frames).scopes.reverse =
      (ofFrames (clearFrames name frames)).scopes.reverse := by
  induction frames with
  | nil => rfl
  | cons frame rest ih =>
    have hlength := (keeps_clearFrames name rest).length_eq
    rw [clearFrames, scopes_ofFrames_cons, scopes_ofFrames_cons, reverse_concat, reverse_concat,
      clearFrom, declares]
    split <;> simp [ih, hlength, forget]

lemma declareValue_ofFrames (s : ScopeStack) (name : String) (id : SymbolId) :
    (ofFrames s.frames).declareValue name id =
      ((s.declareValue name id).map fun _ => (), ofFrames (s.apply (.declareValue name id)).frames) := by
  rw [ScopeStack.apply, ScopeStack.declareValue, declareValue, frames, innermost_ofFrames_cons,
    declareIn]
  cases s.inner.values.lookup name <;> simp [frames, forget, Except.map, Except.toOption]

lemma declareType_ofFrames (s : ScopeStack) (name : String) (id : SymbolId) :
    (ofFrames s.frames).declareType name id =
      ((s.declareType name id).map fun _ => (), ofFrames (s.apply (.declareType name id)).frames) := by
  rw [ScopeStack.apply, ScopeStack.declareType, declareType, frames, innermost_ofFrames_cons,
    declareIn]
  cases s.inner.types.lookup name <;> simp [frames, Except.map, Except.toOption]

/-- Each operation does to linked scopes what it does to nested ones. -/
lemma apply_ofFrames (s : ScopeStack) (op : ScopeOp) :
    (ofFrames s.frames).apply op = ofFrames (s.apply op).frames := by
  cases op with
  | push =>
    ext1
    simp [apply, push, ScopeStack.apply, ScopeStack.push, frames, scopes_ofFrames_cons, placeBefore]
  | pop =>
    obtain ⟨inner, outer⟩ := s
    ext1
    cases outer <;>
      simp [apply, pop, ScopeStack.apply, ScopeStack.pop, frames, scopes_ofFrames_cons]
  | declareValue name id => rw [apply, declareValue_ofFrames]
  | declareType name id => rw [apply, declareType_ofFrames]
  | narrow name ty =>
    simp [apply, narrow, ScopeStack.apply, ScopeStack.narrow, frames, Frame.narrow, forget]
  | clearNarrowing name =>
    ext1
    rw [apply, clearNarrowing, clearFrom_ofFrames, reverse_reverse]
    rfl

lemma foldl_apply_ofFrames (ops : List ScopeOp) (s : ScopeStack) :
    ops.foldl apply (ofFrames s.frames) = ofFrames (ops.foldl ScopeStack.apply s).frames := by
  induction ops generalizing s with
  | nil => rfl
  | cons op rest ih => rw [foldl_cons, apply_ofFrames, ih, foldl_cons]

/-- The way out from a frame leads over the frames around it, whatever stands further in. -/
lemma walkFrom_ofFrames (inside frames : List Frame) :
    walkFrom (ofFrames (inside ++ frames)).scopes frames.length (placeBefore frames.length) =
      some (ofFrames frames).scopes.reverse := by
  induction frames generalizing inside with
  | nil => rfl
  | cons frame rest ih =>
    have hplace : (ofFrames (inside ++ frame :: rest)).scopes[rest.length]? =
        some ⟨frame, placeBefore rest.length⟩ := by
      simp [ofFrames]
    have hrest := ih (inside ++ [frame])
    rw [append_assoc, singleton_append] at hrest
    rw [length_cons, placeBefore, walkFrom, hplace, scopes_ofFrames_cons, reverse_concat]
    simp [hrest]

lemma walk_ofFrames (s : ScopeStack) :
    (ofFrames s.frames).walk = some (ofFrames s.frames).scopes.reverse := by
  rw [walk, depth_ofFrames, frames, current_ofFrames_cons]
  exact walkFrom_ofFrames [] (s.inner :: s.outer)

lemma toFrame_ofFrames (frames : List Frame) :
    (ofFrames frames).scopes.reverse.map (·.toFrame) = frames := by
  induction frames with
  | nil => rfl
  | cons frame rest ih => simp [scopes_ofFrames_cons, ih]

lemma bindings_ofFrames (frames : List Frame) :
    (ofFrames frames).scopes.map (·.bindings) = (frames.map bindings).reverse := by
  have h := congrArg (map bindings) (toFrame_ofFrames frames)
  rw [map_map, map_reverse] at h
  rw [← h, reverse_reverse]
  rfl

end LinkedScopes

namespace ScopeStack

variable {s : ScopeStack} {kept : List Frame} {scopes : List LinkedScope} {e : Redeclaration}

lemma lookupValue_of_toFrame (h : scopes.map (·.toFrame) = s.frames) :
    s.lookupValue name = scopes.findSome? (·.values.lookup name) := by
  rw [lookupValue, ← h, findSome?_map]
  rfl

lemma lookupType_of_toFrame (h : scopes.map (·.toFrame) = s.frames) :
    s.lookupType name = scopes.findSome? (·.types.lookup name) := by
  rw [lookupType, ← h, findSome?_map]
  rfl

lemma valueType_of_toFrame (table : SymbolTable) (h : scopes.map (·.toFrame) = s.frames) :
    s.valueType table name = typeAlong table name scopes := by
  rw [valueType, tracked?, ← h]
  clear h
  induction scopes with
  | nil => rfl
  | cons scope rest ih =>
    rw [typeAlong, map_cons, findSome?_cons, Frame.tracked?]
    cases scope.narrowed.lookup name with
    | some ty => rfl
    | none =>
      cases scope.values.lookup name with
      | some id => rfl
      | none => exact ih

lemma isNarrowed_of_toFrame (h : scopes.map (·.toFrame) = s.frames) :
    s.isNarrowed name = narrowedAlong name scopes := by
  rw [isNarrowed, tracked?, ← h]
  clear h
  induction scopes with
  | nil => rfl
  | cons scope rest ih =>
    rw [narrowedAlong, map_cons, findSome?_cons, Frame.tracked?]
    cases scope.narrowed.lookup name with
    | some ty => rfl
    | none =>
      cases scope.values.lookup name with
      | some id => rfl
      | none => exact ih

lemma toOption_getD_of_error {answer : Except Redeclaration ScopeStack}
    (h : answer.map (fun _ => ()) = .error e) : answer.toOption.getD s = s := by
  cases answer with
  | error => rfl
  | ok t => cases h

lemma bindings_clearFrames (name : String) (frames : List Frame) :
    (clearFrames name frames).map bindings = frames.map bindings := by
  induction frames with
  | nil => rfl
  | cons frame rest ih =>
    rw [clearFrames]
    split <;> simp [ih, bindings, forget]

/-- As long as the scopes around are not left, they bind what they did. -/
lemma outer_apply (op : ScopeOp) (hdepth : kept.length < (s.apply op).depth)
    (h : kept.map bindings <:+ s.outer.map bindings) :
    kept.map bindings <:+ (s.apply op).outer.map bindings := by
  obtain ⟨inner, outer⟩ := s
  cases op with
  | push => exact h.trans (suffix_cons _ _)
  | pop =>
    cases outer with
    | nil => exact h
    | cons frame rest =>
      rcases suffix_cons_iff.mp h with hall | hrest
      · have hlength := congrArg length hall
        simp [apply, pop, depth, frames] at hlength hdepth
        omega
      · exact hrest
  | declareValue name id =>
    simp only [apply, declareValue]
    cases inner.values.lookup name <;> exact h
  | declareType name id =>
    simp only [apply, declareType]
    cases inner.types.lookup name <;> exact h
  | narrow name ty => exact h
  | clearNarrowing name =>
    simp only [apply, clearNarrowing]
    split
    · exact h
    · rwa [bindings_clearFrames]

lemma outer_foldl_apply (ops : List ScopeOp)
    (hdepth : ∀ done, done <+: ops → kept.length < (done.foldl apply s).depth)
    (h : kept.map bindings <:+ s.outer.map bindings) :
    kept.map bindings <:+ (ops.foldl apply s).outer.map bindings := by
  induction ops generalizing s with
  | nil => exact h
  | cons op rest ih =>
    refine ih (fun done hdone => ?_) (outer_apply op (hdepth [op] ⟨rest, rfl⟩) h)
    exact hdepth (op :: done) (cons_prefix_cons.mpr ⟨rfl, hdone⟩)

lemma bindings_pop (ops : List ScopeOp)
    (hdepth : ∀ done, done <+: ops → s.depth < (done.foldl apply s.push).depth)
    (hend : (ops.foldl apply s.push).depth = s.depth + 1) :
    (ops.foldl apply s.push).pop.frames.map bindings = s.frames.map bindings := by
  have hkept : s.frames.map bindings <:+ (ops.foldl apply s.push).outer.map bindings :=
    outer_foldl_apply ops hdepth (suffix_refl _)
  generalize ops.foldl apply s.push = t at hend hkept
  obtain ⟨inner, outer⟩ := t
  have hlength : outer.length = s.frames.length := by simpa [depth, frames] using hend
  have hsame := hkept.eq_of_length (by simp [hlength])
  cases outer with
  | nil => cases hlength
  | cons frame rest => exact hsame.symm

end ScopeStack

/-- Whatever is done to scopes one after the other, those that are linked have the frames of the nested
ones. Each is linked to the one before it, and the way along the links ends after it has led over all
scopes from the innermost one to the root. What is looked up along it is what the first of the frames
has. A declaration has the same answer, and one that fails leaves the linked scopes as they are. What
is done in a scope of its own until it is left again leaves the bindings of all scopes around it as
they are. -/
theorem linkedScopes_refine_frames (ops : List ScopeOp) :
    let linked := ops.foldl LinkedScopes.apply {}
    let s := ops.foldl ScopeStack.apply {}
    linked.scopes = s.frames.reverse.mapIdx
        (fun place frame => ⟨frame, LinkedScopes.placeBefore place⟩) ∧
      1 ≤ linked.depth ∧ linked.walk = some linked.scopes.reverse ∧
      (∀ name table, linked.lookupValue name = some (s.lookupValue name) ∧
        linked.lookupType name = some (s.lookupType name) ∧
        linked.valueType table name = some (s.valueType table name) ∧
        linked.isNarrowed name = some (s.isNarrowed name)) ∧
      (∀ name id, (linked.declareValue name id).1 = (s.declareValue name id).map (fun _ => ()) ∧
        (linked.declareType name id).1 = (s.declareType name id).map fun _ => ()) ∧
      (∀ name id e, ((linked.declareValue name id).1 = .error e →
          (linked.declareValue name id).2 = linked) ∧
        ((linked.declareType name id).1 = .error e → (linked.declareType name id).2 = linked)) ∧
      ∀ inside, (∀ done, done <+: inside →
          linked.depth < (done.foldl LinkedScopes.apply linked.push).depth) →
        (inside.foldl LinkedScopes.apply linked.push).depth = linked.depth + 1 →
        (inside.foldl LinkedScopes.apply linked.push).pop.scopes.map (·.bindings) =
          linked.scopes.map (·.bindings) := by
  intro linked s
  have hlinked : linked = LinkedScopes.ofFrames s.frames := LinkedScopes.foldl_apply_ofFrames ops {}
  clear_value linked s
  subst hlinked
  have hframes := LinkedScopes.toFrame_ofFrames s.frames
  refine ⟨rfl, by simp [frames], LinkedScopes.walk_ofFrames s, fun name table => ?_, fun name id => ?_,
    fun name id e => ⟨fun h => ?_, fun h => ?_⟩, fun inside hdepth hend => ?_⟩
  · rw [LinkedScopes.lookupValue, LinkedScopes.lookupType, LinkedScopes.valueType,
      LinkedScopes.isNarrowed, LinkedScopes.walk_ofFrames, valueType_of_toFrame table hframes,
      isNarrowed_of_toFrame hframes, lookupValue_of_toFrame hframes,
      lookupType_of_toFrame hframes]
    exact ⟨rfl, rfl, rfl, rfl⟩
  · rw [LinkedScopes.declareValue_ofFrames, LinkedScopes.declareType_ofFrames]
    exact ⟨rfl, rfl⟩
  · rw [LinkedScopes.declareValue_ofFrames] at h ⊢
    rw [apply, toOption_getD_of_error h]
  · rw [LinkedScopes.declareType_ofFrames] at h ⊢
    rw [apply, toOption_getD_of_error h]
  · have hpush : (LinkedScopes.ofFrames s.frames).push = LinkedScopes.ofFrames s.push.frames :=
      LinkedScopes.apply_ofFrames s .push
    have hpop (t : ScopeStack) :
        (LinkedScopes.ofFrames t.frames).pop = LinkedScopes.ofFrames t.pop.frames :=
      LinkedScopes.apply_ofFrames t .pop
    simp only [hpush, LinkedScopes.foldl_apply_ofFrames, LinkedScopes.depth_ofFrames] at hdepth hend
    rw [hpush, LinkedScopes.foldl_apply_ofFrames, hpop, LinkedScopes.bindings_ofFrames,
      LinkedScopes.bindings_ofFrames, bindings_pop inside hdepth hend]

end StaticTyping
