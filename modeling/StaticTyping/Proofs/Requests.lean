import StaticTyping.Proofs.Pieces

/-! What the rules for statements ask for. Most actions only look things up, report, and fill the
innermost scope. Which of the others a rule may perform is told by the kind of its statement, and the
statements that it visits are those inside it. -/

namespace StaticTyping

open StmtKind Program

/-- An action that any statement may perform. It changes no symbol and narrows nothing. -/
def Action.Common {β : Type} : Action β → Prop
  | .allocate symbol => symbol.Proper
  | .declareValue _ _ | .declareType _ _ | .pushScope | .popScope | .enterFunction _
  | .leaveFunction | .noteReturn _ => True
  | action => action.Silent

lemma Action.Common.of_silent {β : Type} {action : Action β} (h : action.Silent) : action.Common := by
  cases action with
  | allocate => exact h.elim
  | declareValue | declareType | pushScope | popScope | enterFunction | leaveFunction
  | noteReturn => trivial
  | _ => exact h

def Action.Narrowing {β : Type} : Action β → Prop
  | .narrow _ _ => True
  | _ => False

def Action.Enumerating {β : Type} : Action β → Prop
  | .setVariants _ _ => True
  | _ => False

def StmtKind.Performs (kind : StmtKind) {β : Type} (action : Action β) : Prop :=
  match kind with
  | .branch _ _ _ => action.Common ∨ action.Narrowing
  | .enum _ => action.Common ∨ action.Declaring ∨ action.Enumerating
  | .function _ | .record _ _ | .typeAlias _ => action.Common ∨ action.Declaring
  | _ => action.Common

lemma StmtKind.Performs.cases {kind : StmtKind} {β : Type} {action : Action β}
    (h : kind.Performs action) :
    action.Common ∨ action.Declaring ∨ action.Enumerating ∨ action.Narrowing := by
  cases kind with
  | branch => exact h.imp_right fun h => .inr (.inr h)
  | enum => exact h.imp_right (Or.imp_right .inl)
  | function | record | typeAlias => exact h.imp_right .inl
  | _ => exact .inl h

/-- An action in `A`, an expression in `E`, a statement in `B`, or an alias that is not used inside
another one. -/
def Request.Within (A : {β : Type} → Action β → Prop) (E : ExprId → Prop) (B : StmtId → Prop)
    {β : Type} : Request β → Prop
  | .act action => A action
  | .expr _ id => E id
  | .stmt id => B id
  | .expand active _ _ _ => active = []

namespace Rule

open Steps (Has Gives)

variable {A : {β : Type} → Action β → Prop} {E : ExprId → Prop} {B : StmtId → Prop} {id : StmtId}
  {α β : Type} {env : Env} {p : Program}

section Lenient

variable {W : Type} {C : Contract Request W}

/-- What any statement may do is allowed, and so are visits to the expressions in `E` and to the
statements in `B`. -/
structure Lenient (C : Contract Request W) (E : ExprId → Prop) (B : StmtId → Prop) : Prop where
  act {β : Type} (action : Action β) (w : W) : action.Common → C.requires (.act action) w
  expr (role : Role) {id : ExprId} (w : W) : E id → C.requires (.expr role id) w
  stmt {id : StmtId} (w : W) : B id → C.requires (.stmt id) w
  expand (id : SymbolId) (span : Span) (cyclic : Cyclic) (w : W) :
    C.requires (.expand [] id span cyclic) w

lemma perform_allowed {action : Action α} (h : ∀ w, C.requires (.act action) w) :
    Has C uncounted 0 (perform action) :=
  fun w => ⟨h w, fun _ _ _ => trivial⟩

namespace Lenient

variable (h : Lenient C E B)

include h

lemma perform (action : Action α) (haction : action.Common) : Has C uncounted 0 (perform action) :=
  perform_allowed fun w => h.act action w haction

lemma silent {x : Rule α} (hx : Silent True [] x) : Has C uncounted 0 x := by
  refine fun _ => Steps.Uses.meets (I := fun _ => True) (fun request w hrequest _ => ⟨?_, ?_⟩) hx trivial
  · cases request with
    | act action => exact h.act action w (.of_silent hrequest.1)
    | expr | stmt => exact hrequest.elim
    | expand active id span cyclic =>
      obtain rfl : active = [] := hrequest
      exact h.expand id span cyclic w
  · exact fun _ _ _ => trivial

lemma pieces : Pieces C uncounted :=
  .of_acts h.silent (fun symbol hproper => h.perform (.allocate symbol) hproper)
    (fun name id => h.perform (.declareValue name id) trivial)
    (fun name id => h.perform (.declareType name id) trivial)
    fun hx => (h.perform .pushScope trivial).after fun _ => hx.before fun _ =>
      (h.perform .popScope trivial).andPure

def walk : Walk C uncounted where
  exprs := E
  stmts := B
  expr _ := 0
  stmt _ := 0
  pieces := h.pieces
  visit role hid := fun w => ⟨h.expr role w hid, fun _ _ _ => trivial⟩
  visitStmt hid := fun w => ⟨h.stmt w hid, fun _ _ _ => trivial⟩

lemma encloses : Encloses C uncounted := fun declared _ _ hx =>
  (h.perform (.enterFunction declared) trivial).after fun _ =>
    hx.before fun _ => h.perform .leaveFunction trivial

end Lenient

/-- A statement with the expressions and statements in it, and with those in its methods. -/
structure Walk.Holds (w : Walk C uncounted) (p : Program) (id : StmtId) : Prop where
  exprs : ∀ e ∈ (p.stmt id).kind.exprs, w.exprs e
  methods : ∀ m ∈ p.stmtChildren id, ∀ e ∈ (p.stmt m).kind.exprs, w.exprs e
  children : ∀ c ∈ p.stmtChildren id, w.stmts c
  bodies : ∀ m ∈ p.stmtChildren id, ∀ c ∈ p.stmtChildren m, w.stmts c

lemma Walk.wholeStatement (w : Walk C uncounted) (hid : w.Holds env.program id) {F : SymbolId → Prop}
    (hnote : ∀ ty, Has C uncounted 0 (perform (.noteReturn ty)))
    (hnarrow : (∃ condition consequent alternative,
      (env.program.stmt id).kind = .branch condition consequent alternative) →
      ∀ name ty, Has C uncounted 0 (perform (.narrow name ty)))
    (hencloses : Encloses C uncounted)
    (hdeclaring : (env.program.stmt id).kind.declares →
      ∀ {β : Type} (action : Action β), action.Declaring → Has C uncounted 0 (perform action))
    (hname : (env.program.stmt id).kind.declares →
      Gives C uncounted 0 (registerTypeName env.program id) fun found => ∀ made ∈ found, F made)
    (hvariants : ∀ decl, (env.program.stmt id).kind = .enum decl →
      ∀ made variants, F made → Has C uncounted 0 (perform (.setVariants made variants))) :
    Has C uncounted 0 (Rule.statement env id) := by
  refine w.statement (g := fun _ => 0) (w.plainStatement (fun _ => hnote) ?_ hid.exprs hid.children)
    w.pieces.standing (fun h => w.pieces.declarative (hdeclaring h) (hname h) hvariants) ?_
    (fun _ => .pure ()) fun _ => trivial
  · exact fun hbranch _ _ name ty hx => w.pieces.scope ((hnarrow hbranch name ty).after fun _ => hx)
  · intro h m decl hm hkind made receiver v _ _
    have hheld : (∀ e ∈ (env.program.stmt m).kind.exprs, w.exprs e) ∧
        ∀ c ∈ env.program.stmtChildren m, w.stmts c := by
      rcases hm with rfl | hm
      · exact ⟨hid.exprs, hid.children⟩
      · have hchild := mem_stmtChildren_of_mem_methodsOf hm
        exact ⟨hid.methods m hchild, hid.bodies m hchild⟩
    rw [stmtChildren, hkind] at hheld
    exact w.checkFunction hheld.1 (w.checkBody hencloses hheld.2)
      (fillFunctionType_of_declaring (hdeclaring h) made receiver) v

end Lenient

def asking (A : {β : Type} → Action β → Prop) (E : ExprId → Prop) (B : StmtId → Prop) :
    Contract Request Unit where
  requires request _ := request.Within A E B
  ensures _ _ _ _ := True

abbrev Asks (A : {β : Type} → Action β → Prop) (E : ExprId → Prop) (B : StmtId → Prop) (x : Rule α) :
    Prop :=
  Has (asking A E B) uncounted 0 x

lemma Asks.uses {x : Rule α} (hx : Asks A E B x) : x.Uses (Request.Within A E B) := by
  have hmeets : x.Meets (asking A E B) () fun _ _ => True := hx ()
  clear hx
  induction x with
  | done a => trivial
  | ask request next ih => exact ⟨hmeets.1, fun answer => ih answer (hmeets.2 answer () trivial)⟩

lemma asks_lenient (hA : ∀ {β : Type} (action : Action β), action.Common → A action) :
    Lenient (asking A E B) E B :=
  ⟨fun action _ => hA action, fun _ _ _ h => h, fun _ h => h, fun _ _ _ _ => rfl⟩

lemma program_asks (hA : ∀ {β : Type} (action : Action β), action.Common → A action)
    (hD : ∀ {β : Type} (action : Action β), action.Declaring → A action)
    (hvariants : ∀ made variants, A (.setVariants made variants))
    (hitems : ∀ id ∈ env.program.items, B id) (imports : List Ident) :
    Asks A E B (program env imports) := by
  have hdeclaring {β : Type} (action : Action β) (h : action.Declaring) :
      Asks A E B (perform action) := perform_allowed fun _ => hD action h
  refine (asks_lenient hA).walk.program (fun _ => (asks_lenient hA).pieces.declarative hdeclaring
    ((asks_lenient hA).pieces.nameDeclared hdeclaring) ?_) hitems imports
  exact fun _ _ made variants _ => perform_allowed fun _ => hvariants made variants

/-- A statement asks for what its kind allows, for the expressions that it holds, and for the statements
that stand in it or in its methods. -/
lemma statement_asks (hexprs : ∀ e ∈ (env.program.stmt id).kind.exprs, E e)
    (hmethods : ∀ m ∈ env.program.stmtChildren id, ∀ e ∈ (env.program.stmt m).kind.exprs, E e)
    (hchildren : ∀ c ∈ env.program.stmtChildren id, B c)
    (hbodies : ∀ m ∈ env.program.stmtChildren id, ∀ c ∈ env.program.stmtChildren m, B c) :
    Asks (env.program.stmt id).kind.Performs E B (statement env id) := by
  have hlenient : Lenient (asking (env.program.stmt id).kind.Performs E B) E B := by
    refine asks_lenient fun action h => ?_
    unfold Performs
    split
    · exact .inl h
    · exact .inl h
    · exact .inl h
    · exact .inl h
    · exact .inl h
    · exact h
  have hdeclaring (hdeclares : (env.program.stmt id).kind.declares) {β : Type} (action : Action β)
      (h : action.Declaring) : Asks (env.program.stmt id).kind.Performs E B (perform action) := by
    refine perform_allowed fun _ => ?_
    unfold declares at hdeclares
    show (env.program.stmt id).kind.Performs action
    unfold Performs
    split at hdeclares <;> simp_all
  refine hlenient.walk.wholeStatement ⟨hexprs, hmethods, hchildren, hbodies⟩
    (fun ty => hlenient.perform (.noteReturn ty) trivial) ?_ hlenient.encloses hdeclaring
    (fun h => hlenient.pieces.nameDeclared (hdeclaring h)) ?_
  · rintro ⟨condition, consequent, alternative, hkind⟩ name ty
    rw [hkind]
    exact perform_allowed fun _ => .inr trivial
  · intro decl hkind made variants _
    rw [hkind]
    exact perform_allowed fun _ => .inr (.inr trivial)

end Rule

end StaticTyping
