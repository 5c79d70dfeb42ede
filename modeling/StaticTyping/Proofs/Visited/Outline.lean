import StaticTyping.Check.Action
import StaticTyping.Proofs.Types.NormalForm
import Mathlib.Data.Set.Insert
import Mathlib.Data.Multiset.AddSub

/-! The outline of a state: which expressions are recorded, which declarations have symbols, which
names the scopes bind, and how many functions are being checked. What an action does to the outline
can be told from the outline alone. -/

namespace StaticTyping

variable {name : String} {β : Type} {id : SymbolId} {after s : ScopeStack}

section Frames

lemma lookup_filter_ne (l : List (String × β)) (name key : String) :
    (l.filter (·.1 != name)).lookup key = if key = name then none else l.lookup key := by
  rw [lookup_filter (· != name)]
  by_cases hkey : key = name <;> simp [hkey]

/-- The names of a scope stay as they are, and some may be narrowed no longer. -/
structure Frame.Keeps (before after : Frame) : Prop where
  values : after.values = before.values
  types : after.types = before.types
  narrowed : ∀ name ty, after.narrowed.lookup name = some ty → before.narrowed.lookup name = some ty

/-- No name of a scope is lost or declared anew, and no name is narrowed that was not. -/
structure Frame.Extends (before after : Frame) : Prop where
  values : ∀ name id, before.values.lookup name = some id → after.values.lookup name = some id
  types : ∀ name id, before.types.lookup name = some id → after.types.lookup name = some id
  narrowed : ∀ name ty, after.narrowed.lookup name = some ty → before.narrowed.lookup name = some ty

namespace Frame

variable {a b c : Frame}

lemma Keeps.refl (a : Frame) : a.Keeps a := ⟨rfl, rfl, fun _ _ h => h⟩

lemma Keeps.trans (hab : a.Keeps b) (hbc : b.Keeps c) : a.Keeps c where
  values := hbc.values.trans hab.values
  types := hbc.types.trans hab.types
  narrowed name ty h := hab.narrowed name ty (hbc.narrowed name ty h)

lemma Keeps.forget (a : Frame) (name : String) : a.Keeps (a.forget name) := by
  refine ⟨rfl, rfl, fun key ty h => ?_⟩
  simp only [Frame.forget, lookup_filter_ne] at h
  split at h
  · cases h
  · exact h

lemma Keeps.extends (h : a.Keeps b) : a.Extends b where
  values name id hid := by rwa [h.values]
  types name id hid := by rwa [h.types]
  narrowed := h.narrowed

lemma Extends.trans (hab : a.Extends b) (hbc : b.Extends c) : a.Extends c where
  values name id h := hbc.values name id (hab.values name id h)
  types name id h := hbc.types name id (hab.types name id h)
  narrowed name ty h := hab.narrowed name ty (hbc.narrowed name ty h)

end Frame

/-- Frames one by one stay as they are, up to narrowing that ends. -/
abbrev KeepsAll : List Frame → List Frame → Prop := List.Forall₂ Frame.Keeps

lemma KeepsAll.refl (frames : List Frame) : KeepsAll frames frames :=
  List.forall₂_same.mpr fun frame _ => .refl frame

lemma KeepsAll.trans {xs ys zs : List Frame} (hxy : KeepsAll xs ys) (hyz : KeepsAll ys zs) :
    KeepsAll xs zs := by
  induction hxy generalizing zs with
  | nil => exact hyz
  | cons hab _ ih =>
    cases hyz with
    | cons hbc htail => exact .cons (hab.trans hbc) (ih htail)

/-- The innermost scope may gain names, and the others stay as they are; narrowing may end in all. -/
structure ScopeStack.Extends (before after : ScopeStack) : Prop where
  inner : before.inner.Extends after.inner
  outer : KeepsAll before.outer after.outer

namespace ScopeStack

variable {a b : ScopeStack}

lemma Extends.of_keeps (h : KeepsAll a.frames b.frames) : a.Extends b := by
  cases h with
  | cons hinner houter => exact ⟨hinner.extends, houter⟩

lemma Extends.depth_eq (h : a.Extends b) : b.depth = a.depth := by
  simp [depth, frames, h.outer.length_eq]

lemma keeps_clearFrames (name : String) (frames : List Frame) :
    KeepsAll frames (clearFrames name frames) := by
  induction frames with
  | nil => exact .nil
  | cons frame rest ih =>
    refine .cons (.forget frame name) ?_
    split
    · exact KeepsAll.refl rest
    · exact ih

lemma keeps_clearNarrowing (s : ScopeStack) (name : String) :
    KeepsAll s.frames (s.clearNarrowing name).frames := by
  refine .cons (.forget s.inner name) ?_
  simp only [clearNarrowing]
  split
  · exact KeepsAll.refl s.outer
  · exact keeps_clearFrames name s.outer

lemma lookup_cons_of_new {key : String} {found : SymbolId} {l : List (String × SymbolId)}
    (hnew : l.lookup name = none) (h : l.lookup key = some found) :
    ((name, id) :: l).lookup key = some found := by
  have hne : key ≠ name := by
    rintro rfl
    simp [hnew] at h
  simp [List.lookup_cons, beq_false_of_ne hne, h]

lemma extends_declareValue (h : s.declareValue name id = .ok after) : s.Extends after := by
  unfold declareValue at h
  split at h
  · cases h
  · rename_i hnew
    cases h
    refine ⟨⟨fun key found hkey => ?_, fun _ _ hkey => hkey, ?_⟩, .refl _⟩
    · exact lookup_cons_of_new hnew hkey
    · exact (Frame.Keeps.forget s.inner name).narrowed

lemma extends_declareType (h : s.declareType name id = .ok after) : s.Extends after := by
  unfold declareType at h
  split at h
  · cases h
  · rename_i hnew
    cases h
    refine ⟨⟨fun _ _ hkey => hkey, fun key found hkey => ?_, fun _ _ hkey => hkey⟩, .refl _⟩
    exact lookup_cons_of_new hnew hkey

/-- Work in a scope of its own leaves the scopes around it as it leaves them from inside. -/
lemma keeps_pop (h : KeepsAll s.frames after.outer) : KeepsAll s.frames after.pop.frames := by
  unfold pop
  split
  · rename_i hnil
    rw [hnil] at h
    cases h
  · rename_i frame rest hcons
    rw [hcons] at h
    exact h

end ScopeStack

end Frames

/-- What statements do to a state, apart from symbols and diagnostics. -/
@[ext]
structure Outline where
  recorded : Multiset ExprId
  declared : Set StmtId
  scopes : ScopeStack
  contexts : Nat

def State.outline (s : State) : Outline where
  recorded := s.types.log.map (·.1)
  declared := { id | (s.declarations.lookup id).isSome }
  scopes := s.scopes
  contexts := s.contexts.length

def Action.outline {β : Type} : Action β → Outline → Outline
  | .declareValue name id, w =>
    match w.scopes.declareValue name id with
    | .ok scopes => { w with scopes }
    | .error _ => w
  | .declareType name id, w =>
    match w.scopes.declareType name id with
    | .ok scopes => { w with scopes }
    | .error _ => w
  | .pushScope, w => { w with scopes := w.scopes.push }
  | .popScope, w => { w with scopes := w.scopes.pop }
  | .narrow name ty, w => { w with scopes := w.scopes.narrow name ty }
  | .clearNarrowing name, w => { w with scopes := w.scopes.clearNarrowing name }
  | .noteDeclaration id _, w => { w with declared := insert id w.declared }
  | .enterFunction _, w => { w with contexts := w.contexts + 1 }
  | .leaveFunction, w => { w with contexts := w.contexts - 1 }
  | .record id _, w => { w with recorded := id ::ₘ w.recorded }
  | _, w => w

/-- What the outline says about the answer to an action. -/
def Action.Tells {β : Type} : Action β → Outline → β → Prop
  | .declaredSymbol id, w, answer => answer.isSome ↔ id ∈ w.declared
  | _, _, _ => True

lemma length_noteInFirst (ty : Ty) (contexts : List FunctionContext) :
    (noteInFirst ty contexts).length = contexts.length := by
  cases contexts <;> rfl

lemma Action.outline_step (action : Action β) (s : State) :
    (action.step s).2.outline = action.outline s.outline := by
  cases action with
  | declareValue name id =>
    cases h : s.scopes.declareValue name id <;> simp [step, outline, State.outline, h]
  | declareType name id =>
    cases h : s.scopes.declareType name id <;> simp [step, outline, State.outline, h]
  | lookupValueType name =>
    simp only [step, outline]
    split <;> rfl
  | noteDeclaration id symbol =>
    refine Outline.ext rfl (Set.ext fun a => ?_) rfl rfl
    by_cases ha : a = id
    · simp [step, outline, State.outline, ha]
    · simp [step, outline, State.outline, List.lookup_cons, ha, beq_false_of_ne ha]
  | leaveFunction => simp [step, outline, State.outline]
  | noteReturn ty => simp [step, outline, State.outline, length_noteInFirst]
  | _ => rfl

lemma Action.tells_step (action : Action β) (s : State) :
    action.Tells s.outline (action.step s).1 := by
  cases action with
  | declaredSymbol id => exact .rfl
  | _ => trivial

end StaticTyping
