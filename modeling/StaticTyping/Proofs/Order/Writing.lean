import StaticTyping.Proofs.Order.Settling

/-! What a statement may change of the symbols and declarations that there were before it. A statement
writes to symbols that it made itself, and it declares itself and what is inside it. -/

namespace StaticTyping

open SymbolTable Program List Rule

variable {id : StmtId} {β : Type} {action : Action β} {receiver : Option SymbolId} {permit : Permit}

/-- What work may change of what there was before it. -/
structure Permit where
  /-- The symbols from here on are new. -/
  start : Nat
  /-- The old symbols whose members and variants may be set. -/
  owns : SymbolId → Prop
  /-- The statements that may be declared. -/
  declares : StmtId → Prop
  /-- The statements that have no old symbol. -/
  fresh : StmtId → Prop

/-- The action writes only where it may. What was reported is neither counted nor moved. -/
def Action.Permitted (permit : Permit) {β : Type} : Action β → Prop
  | .setType id _ | .retypeMethod id _ _ => permit.start ≤ id.index
  | .setMembers id _ | .setVariants id _ => permit.start ≤ id.index ∨ permit.owns id
  | .noteDeclaration id symbol => permit.declares id ∧ permit.start ≤ symbol.index
  | .fillType _ _ | .diagnosticCount | .hoist _ _ => False
  | _ => True

lemma Action.Common.permitted (h : action.Common) : action.Permitted permit := by
  cases action with
  | setType | retypeMethod | setMembers | setVariants | noteDeclaration | fillType | diagnosticCount
  | hoist => exact h.elim
  | _ => trivial

/-- What is known of the answer: what is made is new, and so is what fresh statements declared. -/
def Action.AnswersNew (permit : Permit) {β : Type} : Action β → β → Prop
  | .allocate _, id => permit.start ≤ id.index
  | .declaredSymbol id, found => permit.fresh id → ∀ symbol ∈ found, permit.start ≤ symbol.index
  | _, _ => True

structure Permit.Keeps (permit : Permit) (s t : State) : Prop where
  size : permit.start ≤ t.symbols.size
  plain {id : SymbolId} : id.index < permit.start → (t.symbols.get id).aliasTarget = none
  symbols {id : SymbolId} : id.index < permit.start → t.symbols.get id = { s.symbols.get id with
      members := (t.symbols.get id).members, variants := (t.symbols.get id).variants }
  untouched {id : SymbolId} : id.index < permit.start → ¬permit.owns id →
    t.symbols.get id = s.symbols.get id
  declarations {id : StmtId} : ¬permit.declares id →
    t.declarations.lookup id = s.declarations.lookup id
  fresh {id : StmtId} {symbol : SymbolId} : permit.fresh id →
    t.declarations.lookup id = some symbol → permit.start ≤ symbol.index

variable {permit : Permit} {s t : State} {env : Env} {B : StmtId → Prop}

namespace Permit.Keeps

variable {u : State}

variable (h : permit.Keeps s t)

include h

lemma settles (htu : t.Settles u) : permit.Keeps s u := by
  have hget {id : SymbolId} (hid : id.index < permit.start) : u.symbols.get id = t.symbols.get id :=
    htu.plain (h.plain hid)
  refine ⟨htu.size ▸ h.size, fun hid => ?_, fun hid => ?_, fun hid howns => ?_, fun hid => ?_,
    fun hid => ?_⟩
  · rw [hget hid]
    exact h.plain hid
  · rw [hget hid]
    exact h.symbols hid
  · rw [hget hid]
    exact h.untouched hid howns
  · rw [htu.declarations]
    exact h.declarations hid
  · rw [htu.declarations]
    exact h.fresh hid

lemma modifyNew {id : SymbolId} (hid : permit.start ≤ id.index)
    (f : Symbol → Symbol) : permit.Keeps s (t.modifySymbol id f) := by
  have hget {other : SymbolId} (hother : other.index < permit.start) :
      (t.modifySymbol id f).symbols.get other = t.symbols.get other :=
    get_modify_of_ne _ _ (by rintro rfl; omega)
  refine ⟨?_, fun hother => ?_, fun hother => ?_, fun hother howns => ?_, h.declarations, h.fresh⟩
  · simpa [State.modifySymbol] using h.size
  · rw [hget hother]
    exact h.plain hother
  · rw [hget hother]
    exact h.symbols hother
  · rw [hget hother]
    exact h.untouched hother howns

lemma modifyOwn {id : SymbolId} (hid : permit.start ≤ id.index ∨ permit.owns id)
    {f : Symbol → Symbol} (hf : ∀ symbol, f symbol =
      { symbol with members := (f symbol).members, variants := (f symbol).variants }) :
    permit.Keeps s (t.modifySymbol id f) := by
  rcases hid with hid | howns
  · exact h.modifyNew hid f
  have hcases (other : SymbolId) : (t.modifySymbol id f).symbols.get other = t.symbols.get other ∨
      other = id ∧ (t.modifySymbol id f).symbols.get other = f (t.symbols.get other) := by
    by_cases hother : other = id
    · subst hother
      by_cases hlt : other.index < t.symbols.size
      · exact .inr ⟨rfl, get_modify_self _ _ hlt⟩
      · exact .inl (get_modify_of_not_lt _ _ hlt)
    · exact .inl (get_modify_of_ne _ _ hother)
  refine ⟨?_, fun {other} hother => ?_, fun {other} hother => ?_, fun {other} hother hnot => ?_,
    h.declarations, h.fresh⟩
  · simpa [State.modifySymbol] using h.size
  · rcases hcases other with heq | ⟨-, heq⟩
    · rw [heq]
      exact h.plain hother
    · rw [heq, hf]
      exact h.plain hother
  · rcases hcases other with heq | ⟨-, heq⟩
    · rw [heq]
      exact h.symbols hother
    · rw [heq, hf, h.symbols hother]
  · rcases hcases other with heq | ⟨rfl, -⟩
    · rw [heq]
      exact h.untouched hother hnot
    · exact absurd howns hnot

lemma allocate (symbol : Symbol) :
    permit.Keeps s { t with symbols := (t.symbols.alloc symbol).2 } := by
  have hget {other : SymbolId} (hother : other.index < permit.start) :
      (t.symbols.alloc symbol).2.get other = t.symbols.get other :=
    get_alloc_of_ne _ _ (hother.trans_le h.size).ne
  refine ⟨?_, fun hother => ?_, fun hother => ?_, fun hother howns => ?_, h.declarations, h.fresh⟩
  · simpa using h.size.trans (Nat.le_succ _)
  · simp only [hget hother]
    exact h.plain hother
  · simp only [hget hother]
    exact h.symbols hother
  · simp only [hget hother]
    exact h.untouched hother howns

lemma noteDeclaration (hid : permit.declares id) {symbol : SymbolId}
    (hsymbol : permit.start ≤ symbol.index) :
    permit.Keeps s { t with declarations := (id, symbol) :: t.declarations } := by
  refine ⟨h.size, h.plain, h.symbols, h.untouched, fun {other} hother => ?_, fun {other found} hfresh hfound => ?_⟩
  · have hne : other ≠ id := by
      rintro rfl
      exact hother hid
    simpa [lookup_cons, beq_false_of_ne hne] using h.declarations hother
  · by_cases hne : other = id
    · subst hne
      simp only [lookup_cons_self, Option.some.injEq] at hfound
      exact hfound ▸ hsymbol
    · simp only [lookup_cons, beq_false_of_ne hne] at hfound
      exact h.fresh hfresh hfound

lemma step (haction : action.Permitted permit) :
    permit.Keeps s (action.step t).2 ∧ action.AnswersNew permit (action.step t).1 := by
  cases action with
  | allocate symbol => exact ⟨h.allocate symbol, h.size⟩
  | setType | retypeMethod => exact ⟨h.modifyNew haction _, trivial⟩
  | setMembers | setVariants => exact ⟨h.modifyOwn haction fun _ => rfl, trivial⟩
  | fillType | diagnosticCount | hoist => exact haction.elim
  | noteDeclaration id symbol => exact ⟨h.noteDeclaration haction.1 haction.2, trivial⟩
  | declaredSymbol id => exact ⟨h, fun hfresh symbol hsymbol => h.fresh hfresh hsymbol⟩
  | lookupValueType | declareValue | declareType =>
    refine ⟨?_, trivial⟩
    simp only [Action.step]
    split <;> exact { h with }
  | _ => exact ⟨{ h with }, trivial⟩

end Permit.Keeps

namespace Rule

/-- The contract for rules that write where they may. Only statements in `B` are visited. -/
def writing (permit : Permit) (B : StmtId → Prop) : Contract Request Unit where
  requires
    | .act action, _ => action.Permitted permit
    | .expr _ _, _ => True
    | .stmt id, _ => B id
    | .expand _ _ _ _, _ => True
  ensures
    | .act action, _, answer, _ => action.AnswersNew permit answer
    | .expr _ _, _, _, _ => True
    | .stmt _, _, _, _ => True
    | .expand _ _ _ _, _, _, _ => True

end Rule

namespace Check

lemma writing_fulfil {stmt : StmtId → Check Unit}
    (h : ∀ id, B id → ∀ t, permit.Keeps s t → permit.Keeps s ((stmt id).run t).2) :
    Visits.Fulfil { expr := expr env, stmt, expand } (writing permit B) (fun _ _ => True)
      fun _ t => permit.Keeps s t where
  act hkeeps haction := ⟨trivial, (), hkeeps.step haction⟩
  expr hkeeps _ := meets_of_run ⟨(), hkeeps.settles (expr_settling env _ _ _), trivial⟩
  stmt hkeeps hid := meets_of_run ⟨(), h _ hid _ hkeeps, trivial⟩
  expand hkeeps _ := meets_of_run ⟨(), hkeeps.settles (expand_settling _ _ _ _ _), trivial⟩

end Check

namespace Rule

variable {α β : Type} {p : Program}

abbrev Writes (permit : Permit) (B : StmtId → Prop) (x : Rule α) : Prop :=
  Steps.Has (writing permit B) uncounted 0 x

lemma writes_lenient : Lenient (writing permit B) (fun _ => True) B :=
  ⟨fun _ _ h => h.permitted, fun _ _ _ _ => trivial, fun _ h => h, fun _ _ _ _ => trivial⟩

section Registration

def IsNew (permit : Permit) (id : StmtId) (made : SymbolId) (_ : Unit) : Prop :=
  permit.fresh id → permit.start ≤ made.index

lemma writes_standing : Standing (writing permit B) uncounted (IsNew permit) where
  found _ _ := ⟨trivial, fun _ _ h => ⟨trivial, fun made hmade hfresh => h hfresh made hmade⟩⟩
  keeps _ h := h

lemma functionSymbol_writes (hid : permit.declares id) (decl : FunctionDecl) (w : Unit) :
    (functionSymbol id decl).Meets (writing permit B) w fun made v => True ∧ IsNew permit id made v := by
  refine (writes_standing.found id w).bind fun found v hfound => ?_
  cases found with
  | some known => exact ⟨trivial, hfound.2 known rfl⟩
  | none =>
    refine (writes_lenient.pieces.functionHeader (fun _ _ => not_false) v).bind fun header _ _ => ?_
    refine ⟨trivial, fun made _ hmade => ?_⟩
    exact ⟨⟨hid, hmade⟩, fun _ _ _ => ⟨trivial, fun _ => hmade⟩⟩

lemma populateType_writes {declared : SymbolId}
    (hdeclared : permit.start ≤ declared.index ∨ permit.owns declared)
    (hmethods : ∀ m ∈ p.methodsOf id, permit.declares m) :
    Writes permit B (populateType p id declared) := by
  have hact (action : Action Unit) (h : action.Permitted permit) : Writes permit B (perform action) :=
    perform_allowed fun _ => h
  simpa using writes_lenient.pieces.populateType (c := fun _ => 0) (fun _ _ => not_false)
    (fun members => hact (.setMembers declared members) hdeclared)
    (fun _ _ variants => hact (.setVariants declared variants) hdeclared)
    (fun m hm function _ w => (functionSymbol_writes (hmethods m hm) function w).mono fun _ _ _ => trivial)
    (fun _ _ => writes_lenient.silent (expandDeclared_does declared).silent)

lemma registerIfFunction_writes (hid : p.isFunction id → permit.declares id) :
    Writes permit B (registerIfFunction p id) := by
  simpa using writes_lenient.pieces.registerIfFunction (c := fun _ => 0) fun decl hkind w =>
    (functionSymbol_writes (hid (by simp [isFunction, hkind])) decl w).mono fun _ _ _ => trivial

lemma writes_declarative (hid : permit.declares id) (hmethods : ∀ m ∈ p.methodsOf id, permit.declares m) :
    Declarative (writing permit B) uncounted (IsNew permit) (permit.start ≤ ·.index) p id where
  symbol decl _ := functionSymbol_writes hid decl
  name := writes_lenient.pieces.registerTypeName_gives (fun _ _ _ => ⟨trivial, fun _ _ h => ⟨trivial, h⟩⟩)
    (fun _ _ => perform_allowed fun _ => trivial) fun _ hmade => perform_allowed fun _ => ⟨hid, hmade⟩
  populate hmade := populateType_writes (.inl hmade) hmethods
  typed _ hmade _ _ := hmade

end Registration

section Statements

lemma fillFunctionType_writes {id : SymbolId} (hid : permit.start ≤ id.index)
    (hreceiver : ∀ owner ∈ receiver, permit.start ≤ owner.index) (ty : Ty) :
    Writes permit B (fillFunctionType id receiver ty) := by
  refine .after (perform_allowed fun _ => hid) fun _ => ?_
  cases receiver with
  | none => exact .pure ()
  | some owner => exact perform_allowed fun _ => hreceiver owner rfl

/-- Only a function without a written result is given a type, which then has to be new. -/
lemma checkFunction_writes {id : SymbolId} {decl : FunctionDecl}
    (hid : decl.result = none → permit.start ≤ id.index ∧ ∀ owner ∈ receiver, permit.start ≤ owner.index)
    (hbody : ∀ c ∈ decl.body.statements, B c) :
    Writes permit B (checkFunction env id decl receiver) := by
  have hscope : Writes permit B (functionScope env id decl receiver) :=
    writes_lenient.walk.functionScope (fun _ _ => trivial)
      (writes_lenient.walk.checkBody writes_lenient.encloses hbody) id receiver
  refine .after (writes_lenient.pieces.scope hscope) fun found => ?_
  dsimp only
  split
  · exact .pure ()
  · rename_i hresult
    obtain ⟨hnew, howner⟩ := hid (by simpa using hresult)
    exact fillFunctionType_writes hnew howner _

/-- Of the functions without a written result that a statement declares, it and they have to be fresh. -/
lemma declaration_writes (hid : permit.declares id)
    (hmethods : ∀ m ∈ env.program.methodsOf id, permit.declares m)
    (hfunctions : ∀ m decl, m = id ∨ m ∈ env.program.methodsOf id →
      (env.program.stmt m).kind = .function decl →
      (decl.result = none → permit.fresh id ∧ permit.fresh m) ∧ ∀ c ∈ decl.body.statements, B c)
    (hplain : (env.program.stmt id).kind.declares = false → Writes permit B (statement env id)) :
    Writes permit B (statement env id) := by
  refine writes_lenient.walk.statement (g := fun _ => 0) hplain writes_standing
    (fun _ => writes_declarative hid hmethods) ?_ (fun _ => .pure ()) fun _ => trivial
  intro _ m decl hm hkind made receiver v hmade hreceiver
  obtain ⟨hfresh, hbody⟩ := hfunctions m decl hm hkind
  refine checkFunction_writes (fun hresult => ⟨hmade (hfresh hresult).2, fun owner howner => ?_⟩) hbody v
  obtain ⟨_, hnew⟩ := hreceiver owner howner
  exact hnew (hfresh hresult).1

/-- Statements may be visited that are fresh and may be declared, and with a statement those inside it.
-/
structure Visitable (p : Program) (permit : Permit) (B : StmtId → Prop) : Prop where
  declares {id : StmtId} : B id → permit.declares id
  fresh {id : StmtId} : B id → permit.fresh id
  child {id c : StmtId} : B id → c ∈ p.stmtChildren id → B c

lemma statement_writes (h : Visitable env.program permit B) (hid : B id) :
    Writes permit B (statement env id) := by
  refine declaration_writes (h.declares hid) (fun m hm => ?_) (fun m decl hm hkind => ?_)
    (writes_lenient.walk.plainStatement (fun _ _ => perform_allowed fun _ => trivial)
      (fun _ _ _ name ty hx => ?_) (fun _ _ => trivial) fun c hc => h.child hid hc)
  · exact h.declares (h.child hid (mem_stmtChildren_of_mem_methodsOf hm))
  · have hm : B m := by
      rcases hm with rfl | hm
      · exact hid
      · exact h.child hid (mem_stmtChildren_of_mem_methodsOf hm)
    refine ⟨fun _ => ⟨h.fresh hid, h.fresh hm⟩, fun c hc => h.child hm ?_⟩
    rw [stmtChildren, hkind]
    exact hc
  · exact writes_lenient.pieces.scope (.after (perform_allowed fun _ => trivial) fun _ => hx)

end Statements

end Rule

namespace Check

lemma keeps_of_writes {α : Type} {visits : Visits}
    (hvisits : visits.Fulfil (writing permit B) (fun _ _ => True) fun _ t => permit.Keeps s t)
    {rule : Rule α} (hrule : Rule.Writes permit B rule) (h : permit.Keeps s t) :
    permit.Keeps s ((rule.toCheck visits).run t).2 := by
  obtain ⟨-, _, hkeeps, -⟩ := meets_performing_iff.mp (toCheck_meets hvisits (hrule ()) h)
  exact hkeeps

lemma stmtWithin_keeps (hB : Rule.Visitable env.program permit B) (depth : Nat) (hid : B id)
    (h : permit.Keeps s t) : permit.Keeps s ((stmtWithin env depth id).run t).2 := by
  induction depth generalizing id t with
  | zero => exact h
  | succ depth ih =>
    exact keeps_of_writes (writing_fulfil fun id hid t ht => ih hid ht) (statement_writes hB hid) h

end Check

end StaticTyping
