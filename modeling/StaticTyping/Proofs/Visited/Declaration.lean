import StaticTyping.Proofs.Pieces
import StaticTyping.Proofs.Visited.Call

/-! What rules for statements do to the outline, and what registering declarations does to it. A
record is registered together with all of its methods, so that they have symbols when they are
checked. -/

namespace StaticTyping

open Outline Program List ScopeStack

def Action.Proceeds {β : Type} : Action β → Prop
  | .abandon => False
  | _ => True

/-- With each record its methods are declared. -/
def Program.Complete (p : Program) (declared : Set StmtId) : Prop :=
  ∀ id ∈ declared, ∀ m ∈ p.methodsOf id, m ∈ declared

lemma Program.methodsOf_of_isFunction (p : Program) {id : StmtId} (h : p.isFunction id) :
    p.methodsOf id = [] := by
  unfold isFunction at h
  unfold methodsOf
  split
  · rename_i kind decl hkind
    simp [hkind] at h
  · rfl

lemma Program.isFunction_of_mem_methodsOf {p : Program} {id m : StmtId} (h : m ∈ p.methodsOf id) :
    p.isFunction m := by
  unfold methodsOf at h
  split at h
  · exact of_mem_filter h
  · cases h

/-- Methods have no methods, so that statements with all their methods are complete. -/
lemma Program.complete_of_methods (p : Program) (ids : List StmtId) {id m : StmtId}
    (hid : id ∈ (ids : Multiset StmtId) + (ids.map fun id => (p.methodsOf id : Multiset StmtId)).sum)
    (hm : m ∈ p.methodsOf id) :
    m ∈ (ids : Multiset StmtId) + (ids.map fun id => (p.methodsOf id : Multiset StmtId)).sum := by
  rcases Multiset.mem_add.mp hid with hid | hid
  · exact Multiset.mem_add.mpr (.inr (mem_sum_map.mpr ⟨id, Multiset.mem_coe.mp hid, hm⟩))
  · obtain ⟨owner, -, hmethod⟩ := mem_sum_map.mp hid
    have hfunction := isFunction_of_mem_methodsOf (Multiset.mem_coe.mp hmethod)
    simp [p.methodsOf_of_isFunction hfunction] at hm

variable {ready : Set StmtId → Prop} {K : Multiset ExprId} {p : Program} {N : Multiset StmtId}
  {w : Outline}

namespace Outline

/-- What work inside a scope does: the scopes around it keep their names, and if the declarations
were `ready` for it, it records the expressions in `K` and leaves the declarations ready. -/
structure Inside (ready : Set StmtId → Prop) (K : Multiset ExprId) (before after : Outline) :
    Prop where
  recorded : ready before.declared → after.recorded = K + before.recorded
  stays : ready before.declared → ready after.declared
  declared : before.declared ⊆ after.declared
  contexts : after.contexts = before.contexts
  outer : KeepsAll before.scopes.outer after.scopes.outer

/-- What whole statements do: the innermost scope loses no name either. -/
structure Does (ready : Set StmtId → Prop) (K : Multiset ExprId) (before after : Outline) : Prop
    extends Inside ready K before after where
  inner : before.scopes.inner.Extends after.scopes.inner

variable {L : Multiset ExprId} {a b c : Outline}

lemma Does.scopes (h : Does ready K a b) : a.scopes.Extends b.scopes := ⟨h.inner, h.outer⟩

lemma Inside.trans (hab : Inside ready K a b) (hbc : Inside ready L b c) :
    Inside ready (K + L) a c where
  recorded ha := by rw [hbc.recorded (hab.stays ha), hab.recorded ha, ← add_assoc, add_comm L K]
  stays ha := hbc.stays (hab.stays ha)
  declared := hab.declared.trans hbc.declared
  contexts := hbc.contexts.trans hab.contexts
  outer := hab.outer.trans hbc.outer

lemma Does.refl (w : Outline) : Does ready 0 w w where
  recorded _ := (zero_add _).symm
  stays h := h
  declared := subset_rfl
  contexts := rfl
  outer := .refl _
  inner := (Frame.Keeps.refl _).extends

lemma Does.trans (hab : Does ready K a b) (hbc : Does ready L b c) : Does ready (K + L) a c :=
  { hab.toInside.trans hbc.toInside with inner := hab.inner.trans hbc.inner }

lemma Does.after (hab : Does ready 0 a b) (hbc : Does ready K b c) : Does ready K a c := by
  simpa using hab.trans hbc

/-- What registering declarations does: it records nothing, and it declares the statements in `N`,
and apart from them functions only. -/
structure Registered (p : Program) (N : Multiset StmtId) (before after : Outline) : Prop
    extends Does (fun _ => True) 0 before after where
  new : ∀ id ∈ after.declared, id ∈ before.declared ∨ id ∈ N ∨ p.isFunction id
  registered : ∀ id ∈ N, id ∈ after.declared

variable {M : Multiset StmtId}

lemma Registered.refl (w : Outline) : Registered p 0 w w where
  toDoes := .refl w
  new _ h := .inl h
  registered := by simp

lemma Registered.trans (hab : Registered p M a b) (hbc : Registered p N b c) :
    Registered p (M + N) a c where
  toDoes := hab.toDoes.trans hbc.toDoes
  new id hid := by
    rcases hbc.new id hid with hid | hid | hid
    · rcases hab.new id hid with hid | hid | hid
      · exact .inl hid
      · exact .inr (.inl (Multiset.mem_add.mpr (.inl hid)))
      · exact .inr (.inr hid)
    · exact .inr (.inl (Multiset.mem_add.mpr (.inr hid)))
    · exact .inr (.inr hid)
  registered id hid := by
    rcases Multiset.mem_add.mp hid with hid | hid
    · exact hbc.declared (hab.registered id hid)
    · exact hbc.registered id hid

lemma Registered.ofScopes {scopes : ScopeStack} (h : w.scopes.Extends scopes) :
    Registered p 0 w { w with scopes } where
  toDoes := ⟨⟨fun _ => (zero_add _).symm, fun _ => trivial, subset_rfl, rfl, h.outer⟩, h.inner⟩
  new _ h := .inl h
  registered := by simp

lemma Registered.note (w : Outline) (id : StmtId) :
    Registered p {id} w { w with declared := insert id w.declared } where
  toDoes := ⟨⟨fun _ => (zero_add _).symm, fun _ => trivial, Set.subset_insert _ _, rfl, .refl _⟩,
    (Frame.Keeps.refl _).extends⟩
  new found hfound := by
    rcases Set.mem_insert_iff.mp hfound with rfl | hfound
    · exact .inr (.inl (by simp))
    · exact .inl hfound
  registered := by simp

lemma Registered.does (h : Registered p N a b) (hN : ∀ id ∈ N, ∀ m ∈ p.methodsOf id, m ∈ N) :
    Does p.Complete 0 a b where
  __ := h
  recorded _ := h.recorded trivial
  stays ha id hid m hm := by
    rcases h.new id hid with hid | hid | hid
    · exact h.declared (ha id hid m hm)
    · exact h.registered m (hN id hid m hm)
    · simp [p.methodsOf_of_isFunction hid] at hm

end Outline

def doing (ready : Set StmtId → Prop) : Effect (Multiset ExprId) Outline where
  does := Does ready
  zero := Does.refl
  add := Does.trans

def registering (p : Program) : Effect (Multiset StmtId) Outline where
  does := Registered p
  zero := Registered.refl
  add := Registered.trans

namespace Rule

variable {α β : Type} {B : StmtId → Prop} {x x : Rule α}

/-- The contract for rules for statements, over outlines. Only statements in `B` are visited, and
only expressions from which the way down ends. -/
def checking (p : Program) (B : StmtId → Prop) : Contract Request Outline where
  requires
    | .act action, _ => action.Proceeds
    | .expr _ id, _ => p.ExprEnds id
    | .stmt id, _ => B id
    | .expand active _ _ _, _ => active = []
  ensures
    | .act action, w, answer, v => v = action.outline w ∧ action.Tells w answer
    | .expr _ id, w, _, v => v.recorded = p.exprTree id + w.recorded ∧ w.Keeps v
    | .stmt id, w, _, v => Does p.Complete (p.stmtTree id) w v
    | .expand _ _ _ _, w, _, v => v = w

abbrev Checks (p : Program) (B : StmtId → Prop) (K : Multiset ExprId) (x : Rule α) : Prop :=
  Steps.Has (checking p B) (doing p.Complete) K x

abbrev Registers (p : Program) (B : StmtId → Prop) (N : Multiset StmtId) (x : Rule α) : Prop :=
  Steps.Has (checking p B) (registering p) N x

lemma Registers.checks (h : Registers p B N x)
    (hN : ∀ id ∈ N, ∀ m ∈ p.methodsOf id, m ∈ N) : Checks p B 0 x :=
  fun w => (h w).mono fun _ _ hv => hv.does hN

lemma Registers.checks_zero (h : Registers p B 0 x) : Checks p B 0 x := h.checks (by simp)

lemma perform_meets (action : Action α) (h : action.Proceeds) (w : Outline) :
    (perform action).Meets (checking p B) w fun a v => v = action.outline w ∧ action.Tells w a :=
  ⟨h, fun _ _ hv => hv⟩

lemma Silent.meets (hx : Silent True [] x) (w : Outline) :
    x.Meets (checking p B) w fun _ v => v = w := by
  refine Steps.Uses.meets (I := (· = w)) (fun request u hrequest hu => ?_) hx rfl
  cases request with
  | act action =>
    have hproceeds : action.Proceeds := by
      cases action with
      | abandon => exact hrequest.1
      | _ => trivial
    refine ⟨hproceeds, fun _ v hv => ?_⟩
    rw [hv.1, (Action.Resolving.of_silent hrequest.1).outline_eq, hu]
  | expr | stmt => exact hrequest.elim
  | expand => exact ⟨hrequest, fun _ v hv => hv.trans hu⟩

lemma Silent.registers (hx : Silent True [] x) : Registers p B 0 x :=
  fun w => (hx.meets w).mono fun _ _ hv => hv ▸ .refl w

lemma Silent.checks (hx : Silent True [] x) : Checks p B 0 x := hx.registers.checks_zero

lemma perform_has {N : Type} [AddMonoid N] {E : Effect N Outline} {k : N} (action : Action α)
    (h : action.Proceeds) (hdoes : ∀ w, E.does k w (action.outline w)) :
    Steps.Has (checking p B) E k (perform action) :=
  fun w => (perform_meets action h w).mono fun _ _ hv => hv.1 ▸ hdoes w

lemma inScope_meets {P : α → Set StmtId → Prop}
    (h : x.Meets (checking p B) { w with scopes := w.scopes.push } fun a v =>
      Inside ready K { w with scopes := w.scopes.push } v ∧ P a v.declared) :
    (inScope x).Meets (checking p B) w fun a v => Does ready K w v ∧ P a v.declared := by
  refine (perform_meets .pushScope trivial w).bind ?_
  rintro _ _ ⟨rfl, -⟩
  refine h.bind fun a u hu => (perform_meets .popScope trivial u).bind ?_
  rintro _ _ ⟨rfl, -⟩
  -- Inside, the scopes of `w` are the outer ones.
  have hscopes : w.scopes.Extends u.scopes.pop := .of_keeps (keeps_pop hu.1.outer)
  exact ⟨⟨⟨hu.1.recorded, hu.1.stays, hu.1.declared, hu.1.contexts, hscopes.outer⟩, hscopes.inner⟩,
    hu.2⟩

lemma inScope_does (h : Steps.Has (checking p B) (doing ready) K x) :
    Steps.Has (checking p B) (doing ready) K (inScope x) := by
  intro w
  have hinside := (h { w with scopes := w.scopes.push }).mono fun _ _ hv =>
    (⟨hv.toInside, trivial⟩ : _ ∧ True)
  exact (inScope_meets (P := fun _ _ => True) hinside).mono fun _ _ hv => hv.1

lemma declareType_registers (name : String) (id : SymbolId) :
    Registers p B 0 (perform (.declareType name id)) := by
  refine perform_has (.declareType name id) trivial fun w => ?_
  simp only [Action.outline]
  split
  · rename_i scopes hscopes
    exact .ofScopes (extends_declareType hscopes)
  · exact .refl w

lemma declareValue_registers (name : String) (id : SymbolId) :
    Registers p B 0 (perform (.declareValue name id)) := by
  refine perform_has (.declareValue name id) trivial fun w => ?_
  simp only [Action.outline]
  split
  · rename_i scopes hscopes
    exact .ofScopes (extends_declareValue hscopes)
  · exact .refl w

lemma allocate_registers (symbol : Symbol) : Registers p B 0 (perform (.allocate symbol)) :=
  perform_has (.allocate symbol) trivial Registered.refl

lemma registers_pieces : Pieces (checking p B) (registering p) := by
  refine .of_acts (·.registers) (fun symbol _ => allocate_registers symbol) declareValue_registers
    declareType_registers ?_
  intro α N x h w
  let P (_ : α) (declared : Set StmtId) : Prop :=
    (∀ id ∈ declared, id ∈ w.declared ∨ id ∈ N ∨ p.isFunction id) ∧ ∀ id ∈ N, id ∈ declared
  have hinside := (h { w with scopes := w.scopes.push }).mono fun _ _ hv =>
    (⟨hv.toInside, hv.new, hv.registered⟩ : _ ∧ _ ∧ _)
  refine (inScope_meets (P := P) hinside).mono fun _ _ hv => ?_
  exact ⟨hv.1, hv.2.1, hv.2.2⟩

lemma checks_pieces : Pieces (checking p B) (doing p.Complete) :=
  .of_acts (·.checks) (fun symbol _ => Registers.checks_zero (allocate_registers symbol))
    (fun name id => Registers.checks_zero (declareValue_registers name id))
    (fun name id => Registers.checks_zero (declareType_registers name id)) inScope_does

section Registration

lemma noteDeclaration_registers (id : StmtId) (made : SymbolId) :
    Registers p B {id} (perform (.noteDeclaration id made)) :=
  perform_has (.noteDeclaration id made) trivial fun w => .note w id

lemma functionSymbol_registers (id : StmtId) (decl : FunctionDecl) :
    Registers p B {id} (functionSymbol id decl) := by
  intro w
  refine (perform_meets (.declaredSymbol id) trivial w).bind ?_
  rintro found u ⟨rfl, htells⟩
  cases found with
  | some known =>
    have hdeclared : id ∈ u.declared := htells.mp rfl
    have hrefl : Registered p 0 u u := .refl u
    exact { hrefl with new := fun _ h => .inl h, registered := by simpa using hdeclared }
  -- Its header resolves types in a scope of its own and declares nothing outside.
  | none =>
    refine Steps.Has.after (registers_pieces.functionHeader fun _ _ => not_false) (fun header => ?_) u
    exact (allocate_registers _).after fun made => (noteDeclaration_registers id made).andPure

lemma methodMembers_registers (owner : String) (seen : List String) (ids : List StmtId) :
    Registers p B (ids.filter p.isFunction : List StmtId) (methodMembers p owner seen ids) := by
  rw [← sum_map_singleton]
  exact registers_pieces.methodMembers (fun id _ decl _ => functionSymbol_registers id decl) owner seen

lemma populateType_registers (id : StmtId) (declared : SymbolId) :
    Registers p B (p.methodsOf id : List StmtId) (populateType p id declared) := by
  rw [← sum_map_singleton]
  refine registers_pieces.populateType (fun _ _ => not_false) (fun members => ?_) (fun _ _ variants => ?_)
    (fun m _ decl _ => functionSymbol_registers m decl) fun _ _ => (expandDeclared_does declared).silent.registers
  · exact perform_has (.setMembers declared members) trivial Registered.refl
  · exact perform_has (.setVariants declared variants) trivial Registered.refl

lemma registerIfFunction_registers (id : StmtId) :
    Registers p B (if p.isFunction id then {id} else 0) (registerIfFunction p id) :=
  registers_pieces.registerIfFunction fun decl _ => functionSymbol_registers id decl

lemma registerIfFunction_checks (id : StmtId) : Checks p B 0 (registerIfFunction p id) := by
  refine (registerIfFunction_registers id).checks fun found hfound => ?_
  split at hfound
  · obtain rfl := Multiset.mem_singleton.mp hfound
    simp [p.methodsOf_of_isFunction ‹_›]
  · simp at hfound

lemma registerTypeName_registers (id : StmtId) :
    Registers p B (if p.isType id then {id} else 0) (registerTypeName p id) :=
  registers_pieces.registerTypeName fun made _ => noteDeclaration_registers id made

lemma registerTypeName_answers (id : StmtId) (w : Outline) :
    (registerTypeName p id).Meets (checking p B) w fun made _ => made.isSome = p.isType id := by
  unfold registerTypeName
  split
  · rename_i hnone
    simp [isType, hnone]
  · rename_i declared hdeclared
    refine (allocate_registers declared w).bind fun made u _ => ?_
    refine (declareType_of_act Silent.registers (declareType_registers _ _ u)).bind fun _ v _ => ?_
    refine (perform_meets (.noteDeclaration id made) trivial v).bind fun _ _ _ => ?_
    simp [isType, hdeclared]

lemma registerTypeNames_answers (ids : List StmtId) (w : Outline) :
    (registerTypeNames p ids).Meets (checking p B) w fun made v =>
      made.map (·.1) = ids.filter p.isType ∧
        Registered p (ids.filter p.isType : List StmtId) w v := by
  induction ids generalizing w with
  | nil => exact ⟨rfl, .refl w⟩
  | cons id rest ih =>
    refine ((registerTypeName_answers id w).and (registerTypeName_registers id w)).bind ?_
    rintro made u ⟨hmade, hu⟩
    refine (ih u).bind ?_
    rintro others v ⟨hothers, hv⟩
    by_cases htype : p.isType id
    · obtain ⟨symbol, rfl⟩ : ∃ symbol, made = some symbol :=
        Option.isSome_iff_exists.mp (hmade.trans htype)
      rw [if_pos htype] at hu
      rw [filter_cons_of_pos htype, ← Multiset.cons_coe, ← Multiset.singleton_add]
      exact ⟨by simp [hothers], hu.trans hv⟩
    · obtain rfl : made = none := by simpa [htype] using hmade
      rw [if_neg htype] at hu
      rw [filter_cons_of_neg htype]
      have huv := Registered.trans hu hv
      exact ⟨by simpa using hothers, huv⟩

lemma populateTypes_registers (types : List (StmtId × SymbolId)) :
    Registers p B (types.map fun entry => (p.methodsOf entry.1 : Multiset StmtId)).sum
      (types.forM fun entry => populateType p entry.1 entry.2) :=
  .forM fun entry _ => populateType_registers entry.1 entry.2

lemma registerDeclarations_checks (items : List StmtId) :
    Checks p B 0 (registerDeclarations p items) := by
  intro w
  refine (registerTypeNames_answers items w).bind ?_
  rintro types u ⟨htypes, hu⟩
  refine (populateTypes_registers types u).bind fun _ v hv => ?_
  have hdoes : Does p.Complete 0 w v := by
    -- What is populated are the types just registered, so their methods are all there.
    have hmethods : types.map (fun entry => (p.methodsOf entry.1 : Multiset StmtId)) =
        (items.filter p.isType).map fun id => (p.methodsOf id : Multiset StmtId) := by
      rw [← htypes, map_map]
      rfl
    rw [hmethods] at hv
    exact (Registered.trans hu hv).does fun id hid m hm => p.complete_of_methods _ hid hm
  have hfunctions : Checks p B 0 (items.forM (registerIfFunction p)) :=
    .forM_zero fun id _ => registerIfFunction_checks id
  exact (hfunctions v).mono fun _ _ hw => hdoes.after hw

lemma registerType_meets (id : StmtId) (w : Outline) : (do match ← registerTypeName p id with
        | none => return none
        | some made => populateType p id made; return some made : Rule (Option SymbolId)).Meets
      (checking p B) w fun found v =>
        Does p.Complete 0 w v ∧ (p.isType id → found.isSome ∧ id ∈ v.declared) := by
  refine ((registerTypeName_answers id w).and (registerTypeName_registers id w)).bind ?_
  rintro made u ⟨hmade, hu⟩
  cases made with
  | none =>
    have htype : ¬ p.isType id := by simp [← hmade]
    rw [if_neg htype] at hu
    exact ⟨hu.does (by simp), fun h => absurd h htype⟩
  | some made =>
    have htype : p.isType id := hmade.symm
    rw [if_pos htype] at hu
    refine (populateType_registers id made u).bind fun _ v hv => ?_
    have hboth : Registered p (({id} : Multiset StmtId) + p.methodsOf id) w v := .trans hu hv
    refine ⟨hboth.does fun found hfound m hm => ?_, fun _ => ⟨rfl, hboth.registered id (by simp)⟩⟩
    simpa using p.complete_of_methods [id] (by simpa using hfound) hm

/-- A declaration that is met has its symbol from then on, and so have the methods of a record. -/
lemma ensureRegistered_meets (id : StmtId) (w : Outline) :
    (ensureRegistered p id).Meets (checking p B) w fun found v => Does p.Complete 0 w v ∧
        (p.isFunction id ∨ p.isType id → found.isSome ∧ id ∈ v.declared) := by
  refine (perform_meets (.declaredSymbol id) trivial w).bind ?_
  rintro found u ⟨rfl, htells⟩
  cases found with
  | some known => exact ⟨.refl u, fun _ => ⟨rfl, htells.mp rfl⟩⟩
  | none =>
    dsimp only
    split
    · rename_i decl hkind
      refine (registers_pieces.registerFunction (P := fun _ _ => True)
        ((functionSymbol_registers id decl).gives u) fun _ _ => trivial).bind ?_
      rintro made v ⟨hv, -⟩
      refine ⟨hv.does fun found hfound => ?_, fun _ => ⟨rfl, hv.registered id (by simp)⟩⟩
      obtain rfl := Multiset.mem_singleton.mp hfound
      simp [methodsOf, hkind]
    · rename_i hkind
      have hfunction : ¬ p.isFunction id := by
        unfold isFunction
        split
        · exact absurd ‹_› (hkind _)
        · simp
      refine (registerType_meets id u).mono fun found v hv => ⟨hv.1, fun h => hv.2 ?_⟩
      exact h.resolve_left hfunction

end Registration

end Rule

end StaticTyping
