import StaticTyping.Check.Action
import StaticTyping.Proofs.Types.NormalForm

/-! The symbols that a state refers to and the types that it holds, wherever they stand in it. What
is known of all of them is known of what a scope finds under a name. -/

namespace StaticTyping

open List

structure Member.Holds (R : SymbolId → Prop) (T : Ty → Prop) (m : Member) : Prop where
  ty : T m.ty
  method : ∀ id ∈ m.method, R id

/-- The symbols that a symbol refers to are as `R` says, and the types that it holds are as `T`
says. -/
structure Symbol.Holds (R : SymbolId → Prop) (T : Ty → Prop) (symbol : Symbol) : Prop where
  ty : ∀ t ∈ symbol.ty, T t
  params : ∀ param ∈ symbol.params, T param.ty
  members : ∀ m ∈ symbol.members, m.Holds R T
  payload : ∀ t ∈ symbol.payload, T t
  owner : ∀ id ∈ symbol.owner, R id
  variants : ∀ id ∈ symbol.variants, R id

structure Frame.Holds (R : SymbolId → Prop) (T : Ty → Prop) (frame : Frame) : Prop where
  values : ∀ entry ∈ frame.values, R entry.2
  types : ∀ entry ∈ frame.types, R entry.2
  narrowed : ∀ entry ∈ frame.narrowed, T entry.2

def Tracked.Holds (R : SymbolId → Prop) (T : Ty → Prop) : Tracked → Prop
  | .narrowed ty => T ty
  | .declared id => R id

def ScopeStack.Holds (R : SymbolId → Prop) (T : Ty → Prop) (scopes : ScopeStack) : Prop :=
  ∀ frame ∈ scopes.frames, frame.Holds R T

structure FunctionContext.Holds (T : Ty → Prop) (context : FunctionContext) : Prop where
  declared : ∀ t ∈ context.declared, T t
  returns : ∀ t ∈ context.returns, T t

/-- Each symbol that a state refers to is as `R` says, and each type that it holds is as `T` says. -/
structure State.Holds (R : SymbolId → Prop) (T : Ty → Prop) (s : State) : Prop where
  symbols : ∀ symbol ∈ s.symbols.symbols, symbol.Holds R T
  scopes : s.scopes.Holds R T
  declarations : ∀ entry ∈ s.declarations, R entry.2
  contexts : ∀ context ∈ s.contexts, context.Holds T
  recorded : ∀ entry ∈ s.types.log, T entry.2

variable {frame : Frame} {collision : Redeclaration}

section Mono

variable {R R' : SymbolId → Prop} {T T' : Ty → Prop} {symbol : Symbol}

lemma Symbol.Holds.ofType (hty : ∀ t ∈ symbol.ty, T t)
    (hparams : symbol.params = []) (hmembers : symbol.members = []) (howner : symbol.owner = none)
    (hpayload : symbol.payload = []) (hvariants : symbol.variants = []) : symbol.Holds R T := by
  refine ⟨hty, ?_, ?_, ?_, ?_, ?_⟩
  · simp [hparams]
  · simp [hmembers]
  · simp [hpayload]
  · simp [howner]
  · simp [hvariants]

lemma Symbol.Holds.mono (h : symbol.Holds R T) (hR : ∀ id, R id → R' id)
    (hT : ∀ t, T t → T' t) : symbol.Holds R' T' where
  ty t ht := hT t (h.ty t ht)
  params param hparam := hT _ (h.params param hparam)
  members m hm := ⟨hT _ (h.members m hm).ty, fun id hid => hR id ((h.members m hm).method id hid)⟩
  payload t ht := hT t (h.payload t ht)
  owner id hid := hR id (h.owner id hid)
  variants id hid := hR id (h.variants id hid)

lemma Frame.Holds.mono (h : frame.Holds R T) (hR : ∀ id, R id → R' id) (hT : ∀ t, T t → T' t) :
    frame.Holds R' T' where
  values entry hentry := hR _ (h.values entry hentry)
  types entry hentry := hR _ (h.types entry hentry)
  narrowed entry hentry := hT _ (h.narrowed entry hentry)

lemma FunctionContext.Holds.mono {context : FunctionContext} (h : context.Holds T)
    (hT : ∀ t, T t → T' t) : context.Holds T' where
  declared t ht := hT t (h.declared t ht)
  returns t ht := hT t (h.returns t ht)

lemma State.Holds.mono {s : State} (h : s.Holds R T) (hR : ∀ id, R id → R' id)
    (hT : ∀ t, T t → T' t) : s.Holds R' T' where
  symbols symbol hsymbol := (h.symbols symbol hsymbol).mono hR hT
  scopes frame hframe := (h.scopes frame hframe).mono hR hT
  declarations entry hentry := hR _ (h.declarations entry hentry)
  contexts context hcontext := (h.contexts context hcontext).mono hT
  recorded entry hentry := hT _ (h.recorded entry hentry)

end Mono

section Scopes

variable {R : SymbolId → Prop} {T : Ty → Prop} {found : Tracked}

lemma Frame.Holds.empty : Frame.Holds R T {} := ⟨nofun, nofun, nofun⟩

lemma Frame.Holds.forget (h : frame.Holds R T) (name : String) : (frame.forget name).Holds R T :=
  { h with narrowed := fun entry hentry => h.narrowed entry (mem_of_mem_filter hentry) }

lemma Frame.Holds.tracked (h : frame.Holds R T) {name : String}
    (hfound : frame.tracked? name = some found) : found.Holds R T := by
  unfold Frame.tracked? at hfound
  split at hfound
  · rename_i ty hty
    cases hfound
    exact h.narrowed _ (mem_of_lookup_eq_some hty)
  · obtain ⟨id, hid, rfl⟩ := Option.map_eq_some_iff.mp hfound
    exact h.values _ (mem_of_lookup_eq_some hid)

namespace ScopeStack

variable {s after : ScopeStack} {name : String} {id : SymbolId}

lemma mem_clearFrames {frames : List Frame} (h : frame ∈ clearFrames name frames) :
    frame ∈ frames ∨ ∃ before ∈ frames, frame = before.forget name := by
  induction frames with
  | nil => simp [clearFrames] at h
  | cons first rest ih =>
    rcases mem_cons.mp h with rfl | h
    · exact .inr ⟨first, .head _, rfl⟩
    · split at h
      · exact .inl (.tail _ h)
      · rcases ih h with h | ⟨before, hbefore, rfl⟩
        · exact .inl (.tail _ h)
        · exact .inr ⟨before, .tail _ hbefore, rfl⟩

namespace Holds

variable (h : s.Holds R T)

include h

lemma push : s.push.Holds R T := forall_mem_cons.mpr ⟨.empty, h⟩

lemma pop : s.pop.Holds R T := by
  unfold ScopeStack.pop
  split
  · exact h
  · rename_i frame rest houter
    intro f hf
    refine h f (.tail _ ?_)
    rw [houter]
    exact hf

lemma inner : s.inner.Holds R T := h _ (.head _)

lemma withInner (hframe : frame.Holds R T) : ScopeStack.Holds R T { s with inner := frame } :=
  forall_mem_cons.mpr ⟨hframe, fun f hf => h f (.tail _ hf)⟩

lemma declareValue (hid : R id) (hafter : s.declareValue name id = .ok after) :
    after.Holds R T := by
  unfold ScopeStack.declareValue at hafter
  split at hafter
  · cases hafter
  · cases hafter
    refine h.withInner { h.inner.forget name with values := ?_ }
    exact forall_mem_cons.mpr ⟨hid, h.inner.values⟩

lemma declareType (hid : R id) (hafter : s.declareType name id = .ok after) : after.Holds R T := by
  unfold ScopeStack.declareType at hafter
  split at hafter
  · cases hafter
  · cases hafter
    exact h.withInner { h.inner with types := forall_mem_cons.mpr ⟨hid, h.inner.types⟩ }

lemma existingValue (hc : s.declareValue name id = .error collision) : R collision.existing := by
  unfold ScopeStack.declareValue at hc
  split at hc
  · rename_i existing hexisting
    cases hc
    exact h.inner.values _ (mem_of_lookup_eq_some hexisting)
  · cases hc

lemma existingType (hc : s.declareType name id = .error collision) : R collision.existing := by
  unfold ScopeStack.declareType at hc
  split at hc
  · rename_i existing hexisting
    cases hc
    exact h.inner.types _ (mem_of_lookup_eq_some hexisting)
  · cases hc

lemma lookupValue (hid : s.lookupValue name = some id) : R id := by
  obtain ⟨frame, hframe, hfound⟩ := exists_of_findSome?_eq_some hid
  exact (h frame hframe).values _ (mem_of_lookup_eq_some hfound)

lemma lookupType (hid : s.lookupType name = some id) : R id := by
  obtain ⟨frame, hframe, hfound⟩ := exists_of_findSome?_eq_some hid
  exact (h frame hframe).types _ (mem_of_lookup_eq_some hfound)

lemma tracked (hfound : s.tracked? name = some found) : found.Holds R T := by
  obtain ⟨frame, hframe, hfound⟩ := exists_of_findSome?_eq_some hfound
  exact (h frame hframe).tracked hfound

lemma narrow {ty : Ty} (hty : T ty) : (s.narrow name ty).Holds R T := by
  refine h.withInner { h.inner with narrowed := ?_ }
  exact forall_mem_cons.mpr ⟨hty, (h.inner.forget name).narrowed⟩

lemma clearNarrowing : (s.clearNarrowing name).Holds R T := by
  refine forall_mem_cons.mpr ⟨h.inner.forget name, fun frame hframe => ?_⟩
  have houter : ∀ f ∈ s.outer, f.Holds R T := fun f hf => h f (.tail _ hf)
  simp only [ScopeStack.clearNarrowing] at hframe
  split at hframe
  · exact houter frame hframe
  · rcases mem_clearFrames hframe with hmem | ⟨before, hbefore, rfl⟩
    · exact houter frame hmem
    · exact (houter before hbefore).forget name

end Holds

end ScopeStack

end Scopes

end StaticTyping
