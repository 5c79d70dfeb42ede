import StaticTyping.Proofs.Stored.State
import StaticTyping.Proofs.Visited.Outline

/-! What a name means in nested scopes. Its type may be narrowed further in than it is declared, and
once narrowing has ended it is the declared one again. -/

namespace StaticTyping

lemma Frame.tracked?_forget (frame : Frame) (name : String) :
    (frame.forget name).tracked? name = (frame.values.lookup name).map .declared := by
  simp [tracked?, forget, lookup_filter_ne]

def boundIn (frames : List Frame) (name : String) : Option SymbolId :=
  frames.findSome? (·.values.lookup name)

lemma boundIn_cons (frame : Frame) (frames : List Frame) (name : String) :
    boundIn (frame :: frames) name = (frame.values.lookup name).or (boundIn frames name) := by
  simp only [boundIn, List.findSome?_cons]
  cases frame.values.lookup name <;> rfl

lemma KeepsAll.boundIn_eq {xs ys : List Frame} (h : KeepsAll xs ys) (name : String) :
    boundIn ys name = boundIn xs name := by
  induction h with
  | nil => rfl
  | cons hframe _ ih => rw [boundIn_cons, boundIn_cons, hframe.values, ih]

namespace ScopeStack

variable {s t : ScopeStack} {name : String}

lemma lookupValue_of_keeps (h : KeepsAll s.frames t.frames) (name : String) :
    t.lookupValue name = s.lookupValue name :=
  h.boundIn_eq name

lemma tracked?_clearFrames (name : String) (frames : List Frame) :
    (clearFrames name frames).findSome? (·.tracked? name) = (boundIn frames name).map .declared := by
  induction frames with
  | nil => rfl
  | cons frame rest ih =>
    rw [clearFrames, List.findSome?_cons, Frame.tracked?_forget, boundIn_cons]
    cases hlookup : frame.values.lookup name with
    | some id => rfl
    | none => simpa [Frame.declares, hlookup] using ih

lemma tracked?_clearNarrowing (s : ScopeStack) (name : String) :
    (s.clearNarrowing name).tracked? name = (s.lookupValue name).map .declared :=
  tracked?_clearFrames name s.frames

lemma valueType_of_declared {table : SymbolTable} {id : SymbolId}
    (h : s.tracked? name = some (.declared id)) (hid : id.index < table.size) :
    s.valueType table name = .ok (some (table.get id).tyOrUnknown) := by
  have hget : table.get? id = some (table.get id) := by
    simp [SymbolTable.get, SymbolTable.get?, Array.getElem?_eq_getElem hid]
  simp only [valueType, h, hget]

end ScopeStack

end StaticTyping
