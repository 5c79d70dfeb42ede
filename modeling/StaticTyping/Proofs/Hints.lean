import StaticTyping.Proofs.Output.Frame

/-! What the expected type of an expression is for. A hint is passed on to operands, elements and
entries, and is used by numbers and by empty arrays and maps only. Two hints between which these see no
difference make no difference to a check at all. -/

namespace StaticTyping

open ExprKind List

variable {elements : List ExprId} {id : ExprId}

def Rule.positionHints : Option Ty → List Ty
  | some (.tuple hints) => hints
  | _ => []

/-- Hints that are related stay related when they are passed on to the parts of an array, a map or a
tuple. -/
structure PassedOn (H : Option Ty → Option Ty → Prop) : Prop where
  element {g h : Option Ty} : H g h → H (g.bind Ty.arrayElement?) (h.bind Ty.arrayElement?)
  key {g h : Option Ty} : H g h →
    H ((g.bind Ty.mapEntry?).map (·.1)) ((h.bind Ty.mapEntry?).map (·.1))
  value {g h : Option Ty} : H g h →
    H ((g.bind Ty.mapEntry?).map (·.2)) ((h.bind Ty.mapEntry?).map (·.2))
  position {g h : Option Ty} : H g h → ∀ n : Nat,
    H (Rule.positionHints g)[n]? (Rule.positionHints h)[n]?

/-- The expressions whose type is taken from a hint: numbers, and arrays and maps without entries. -/
def ExprKind.takesHint : ExprKind → Bool
  | .literal (.int _) | .literal .float | .array [] | .map [] => true
  | _ => false

structure OffersSame (g h : Option Ty) : Prop where
  integer : g.bind (Rule.offered? Primitive.isInteger) = h.bind (Rule.offered? Primitive.isInteger)
  float : g.bind (Rule.offered? Primitive.isFloat) = h.bind (Rule.offered? Primitive.isFloat)
  element : g.bind Ty.arrayElement? = h.bind Ty.arrayElement?
  entry : g.bind Ty.mapEntry? = h.bind Ty.mapEntry?

namespace Rule

variable {α β : Type} {env : Env} {visits : Visits} {H : Option Ty → Option Ty → Prop}
  {g h : Option Ty} {operand : ExprId}

def HintFree (visits : Visits) (H : Option Ty → Option Ty → Prop) (id : ExprId) : Prop :=
  ∀ g h, H g h → visits.expr (.value g) id = visits.expr (.value h) id

lemma toCheck_visit_congr (hid : HintFree visits H id) (hgh : H g h) :
    (visit (.value g) id).toCheck visits = (visit (.value h) id).toCheck visits := by
  simp only [toCheck_visit]
  exact hid g h hgh

lemma toCheck_bind_congr {x y : Rule α} {f k : α → Rule β} (hxy : x.toCheck visits = y.toCheck visits)
    (hfk : ∀ a, (f a).toCheck visits = (k a).toCheck visits) :
    (x >>= f).toCheck visits = (y >>= k).toCheck visits := by
  simp only [toCheck_bind, hxy, hfk]

lemma toCheck_mapM_congr {f k : α → Rule β} (xs : List α)
    (h : ∀ a ∈ xs, (f a).toCheck visits = (k a).toCheck visits) :
    (xs.mapM f).toCheck visits = (xs.mapM k).toCheck visits := by
  induction xs with
  | nil => rfl
  | cons a rest ih =>
    simp only [mapM_cons]
    refine toCheck_bind_congr (h a mem_cons_self) fun _ => toCheck_bind_congr ?_ fun _ => rfl
    exact ih fun b hb => h b (mem_cons_of_mem a hb)

lemma literalType_congr (options : Options) (literal : Literal) (span : Span) (negative : Bool)
    (hoffers : (ExprKind.literal literal).takesHint → OffersSame g h) :
    literalType options literal g span negative = literalType options literal h span negative := by
  cases literal with
  | int digits =>
    have hwidth : integerWidth options g = integerWidth options h := by
      rw [integerWidth, integerWidth, (hoffers rfl).integer]
    simp only [literalType, hwidth]
  | float =>
    have hwidth : floatWidth options g = floatWidth options h := by
      rw [floatWidth, floatWidth, (hoffers rfl).float]
    simp only [literalType, hwidth]
  | string | bool | null => rfl

/-- The number after a minus is a part of its own, but its type is found here. -/
lemma signedType_congr (op : UnaryOp) (sign : String) (span : Span)
    (hoperand : HintFree visits H operand) (hgh : H g h)
    (hoffers : (env.exprKind operand).takesHint → OffersSame g h) :
    (signedType env op sign operand g span).toCheck visits =
      (signedType env op sign operand h span).toCheck visits := by
  unfold signedType
  split
  · rename_i digits hdigits
    rw [literalType_congr _ _ _ _ fun hint => hoffers (hdigits ▸ hint)]
  · exact toCheck_bind_congr (toCheck_visit_congr hoperand hgh) fun _ => rfl

lemma operandTypes_congr {left right : ExprId} (hleft : HintFree visits H left)
    (hright : HintFree visits H right) (hgh : H g h) :
    (operandTypes env left right g).toCheck visits = (operandTypes env left right h).toCheck visits := by
  unfold operandTypes
  split
  · refine toCheck_bind_congr rfl fun _ => ?_
    exact toCheck_bind_congr (toCheck_visit_congr hright hgh) fun _ => rfl
  · exact toCheck_bind_congr (toCheck_visit_congr hleft hgh) fun _ => rfl

lemma arrayType_congr (hpassed : PassedOn H) (helements : ∀ id ∈ elements, HintFree visits H id)
    (hgh : H g h) (hoffers : (array elements).takesHint → OffersSame g h) :
    (arrayType elements g).toCheck visits = (arrayType elements h).toCheck visits := by
  cases elements with
  | nil => simp only [arrayType, (hoffers rfl).element]
  | cons first rest =>
    simp only [arrayType, mapM_cons, bind_assoc, pure_bind, isEmpty_cons, Bool.false_eq_true,
      if_false]
    have hfirst := helements first mem_cons_self
    refine toCheck_bind_congr (toCheck_visit_congr hfirst (hpassed.element hgh)) fun _ => ?_
    refine toCheck_bind_congr (toCheck_mapM_congr rest fun id hid => ?_) fun _ => rfl
    exact toCheck_visit_congr (helements id (mem_cons_of_mem first hid)) (hpassed.element hgh)

lemma mapType_congr (hpassed : PassedOn H) {entries : List MapEntry}
    (hkeys : ∀ entry ∈ entries, HintFree visits H entry.key)
    (hvalues : ∀ entry ∈ entries, HintFree visits H entry.value) (hgh : H g h)
    (hoffers : (map entries).takesHint → OffersSame g h) :
    (mapType entries g).toCheck visits = (mapType entries h).toCheck visits := by
  have hkey (entry : MapEntry) (hmem : entry ∈ entries) :=
    toCheck_visit_congr (hkeys entry hmem) (hpassed.key hgh)
  have hvalue (entry : MapEntry) (hmem : entry ∈ entries) :=
    toCheck_visit_congr (hvalues entry hmem) (hpassed.value hgh)
  cases entries with
  | nil => simp only [mapType, (hoffers rfl).entry]
  | cons first rest =>
    simp only [mapType, entryTypes, mapM_cons, bind_assoc, pure_bind, isEmpty_cons,
      Bool.false_eq_true, if_false]
    refine toCheck_bind_congr (hkey first mem_cons_self) fun _ => ?_
    refine toCheck_bind_congr (hvalue first mem_cons_self) fun _ => ?_
    refine toCheck_bind_congr (toCheck_mapM_congr rest fun entry hmem => ?_) fun _ => rfl
    have hmem := mem_cons_of_mem first hmem
    exact toCheck_bind_congr (hkey entry hmem) fun _ => toCheck_bind_congr (hvalue entry hmem) fun _ => rfl

lemma elementTypes_congr {hints others : List Ty} (helements : ∀ id ∈ elements, HintFree visits H id)
    (hhints : ∀ n : Nat, H hints[n]? others[n]?) :
    (elementTypes hints elements).toCheck visits = (elementTypes others elements).toCheck visits := by
  induction elements generalizing hints others with
  | nil => rfl
  | cons first rest ih =>
    have hhead : H hints.head? others.head? := by
      simpa only [head?_eq_getElem?] using hhints 0
    have htail (n : Nat) : H hints.tail[n]? others.tail[n]? := by
      simpa only [getElem?_tail] using hhints (n + 1)
    refine toCheck_bind_congr (toCheck_visit_congr (helements first mem_cons_self) hhead) fun _ => ?_
    refine toCheck_bind_congr ?_ fun _ => rfl
    exact ih (fun id hid => helements id (mem_cons_of_mem first hid)) htail

/-- A hint reaches a check through the parts that it is passed on to. -/
lemma valueType_congr (hpassed : PassedOn H) (hgh : H g h)
    (hparts : ∀ c ∈ env.program.exprChildren id, HintFree visits H c)
    (hoffers : ∀ c, c = id ∨ c ∈ env.program.exprChildren id → (env.exprKind c).takesHint →
      OffersSame g h) : (valueType env id g).toCheck visits = (valueType env id h).toCheck visits := by
  have hown := hoffers id (.inl rfl)
  have hpart (c : ExprId) (hc : c ∈ env.program.exprChildren id) := hoffers c (.inr hc)
  unfold Program.exprChildren at hparts hpart
  unfold valueType
  cases hkind : env.exprKind id with
  | literal literal =>
    rw [hkind] at hown
    simp only [literalType_congr env.options literal _ false hown]
  | unary op operand =>
    have hchild : operand ∈ (env.program.expr id).kind.children := by
      simp [show (env.program.expr id).kind = _ from hkind, children]
    have hoperand := hparts operand hchild
    cases op with
    | not => rfl
    | minus => exact signedType_congr .minus "-" _ hoperand hgh (hpart operand hchild)
    | plus => exact signedType_congr .plus "+" _ hoperand hgh (hpart operand hchild)
  | binary op left right =>
    simp only [show (env.program.expr id).kind = _ from hkind, children] at hparts
    have hleft := hparts left (by simp)
    have hright := hparts right (by simp)
    cases op with
    | add | subtract | multiply | divide | modulo | bitOr =>
      exact toCheck_bind_congr (operandTypes_congr hleft hright hgh) fun _ => rfl
    | _ => rfl
  | array elements =>
    rw [hkind] at hown
    simp only [show (env.program.expr id).kind = _ from hkind, children] at hparts
    exact arrayType_congr hpassed hparts hgh hown
  | map entries =>
    rw [hkind] at hown
    simp only [show (env.program.expr id).kind = _ from hkind, children, mem_flatMap] at hparts
    exact mapType_congr hpassed (fun entry hmem => hparts _ ⟨entry, hmem, by simp⟩)
      (fun entry hmem => hparts _ ⟨entry, hmem, by simp⟩) hgh hown
  | tuple elements =>
    simp only [show (env.program.expr id).kind = _ from hkind, children] at hparts
    exact toCheck_bind_congr (elementTypes_congr hparts (hpassed.position hgh)) fun _ => rfl
  | group inner =>
    simp only [show (env.program.expr id).kind = _ from hkind, children] at hparts
    exact toCheck_visit_congr (hparts inner (by simp)) hgh
  | name | assign | call | member | index | record | cast | hole => rfl

end Rule

namespace Check

variable {env : Env}

/-- Where all that takes its type from a hint is offered the same, related hints make no difference. -/
lemma exprWithin_hint {H : Option Ty → Option Ty → Prop} (hpassed : PassedOn H)
    (hoffers : ∀ a, Relation.ReflTransGen env.program.ExprEdge id a →
      (env.exprKind a).takesHint → ∀ g h, H g h → OffersSame g h) (depth : Nat) {g h : Option Ty}
    (hgh : H g h) : exprWithin env depth (.value g) id = exprWithin env depth (.value h) id := by
  induction depth generalizing id g h with
  | zero => rfl
  | succ depth ih =>
    refine Rule.toCheck_bind_congr (Rule.valueType_congr hpassed hgh ?_ ?_) fun _ => rfl
    · intro c hc g h hgh
      exact ih (fun a hca => hoffers a (.head hc hca)) hgh
    · rintro c (rfl | hc) htakes
      · exact hoffers c .refl htakes g h hgh
      · exact hoffers c (.single hc) htakes g h hgh

/-- An expression that holds no number and no empty array or map is checked in the same way whatever
type is expected of it: to the same type, and to a state with the same diagnostics and recorded
types. -/
theorem expr_hint_irrelevant {id : ExprId}
    (hfree : ∀ a, Relation.ReflTransGen env.program.ExprEdge id a → (env.exprKind a).takesHint = false)
    (g h : Option Ty) (s : State) :
    (expr env (.value g) id).run s = (expr env (.value h) id).run s := by
  have hpassed : PassedOn fun _ _ => True :=
    ⟨fun _ => trivial, fun _ => trivial, fun _ => trivial, fun _ _ => trivial⟩
  have hsame : expr env (.value g) id = expr env (.value h) id := by
    refine exprWithin_hint hpassed (fun a ha htakes => ?_) _ trivial
    simp [hfree a ha] at htakes
  rw [hsame]

/-- A tuple in parentheses: an array of a name with a sign and a text, and a text. -/
def hintedTuple : Env where
  program := {
    expressions := #[⟨{}, .name "x"⟩, ⟨{}, .unary .minus ⟨0⟩⟩, ⟨{}, .literal (.string "a")⟩,
      ⟨{}, .array [⟨1⟩, ⟨2⟩]⟩, ⟨{}, .tuple [⟨3⟩, ⟨2⟩]⟩, ⟨{}, .group ⟨4⟩⟩] }
  options := {}

theorem expr_hint_irrelevant_tuple :
    (∀ a, Relation.ReflTransGen hintedTuple.program.ExprEdge ⟨5⟩ a →
      (hintedTuple.exprKind a).takesHint = false) ∧
    (expr hintedTuple (.value (some (.tuple [.array (.prim .i8), .prim .i8]))) ⟨5⟩).run {} =
      (expr hintedTuple (.value none) ⟨5⟩).run {} := by
  have hfree : ∀ a, Relation.ReflTransGen hintedTuple.program.ExprEdge ⟨5⟩ a →
      (hintedTuple.exprKind a).takesHint = false := by
    rintro ⟨_ | _ | _ | _ | _ | _ | index⟩ - <;> rfl
  exact ⟨hfree, expr_hint_irrelevant hfree _ _ {}⟩

end Check

end StaticTyping
