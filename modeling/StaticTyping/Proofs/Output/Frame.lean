import StaticTyping.Proofs.Output.Order
import StaticTyping.Proofs.Requests
import StaticTyping.Proofs.Visited.Depth
import Mathlib.Algebra.Order.PUnit

/-! What was put out before makes no difference. An expression is checked with the same outcome and adds
the same diagnostics and types, whatever diagnostics and types there are already. -/

namespace StaticTyping

open Steps Rule Check State Diagnostics

namespace Diagnostics

variable (ds es : Diagnostics)

lemma append_push (d : Diagnostic) : ds.append (es.push d) = (ds.append es).push d :=
  ext_toList (by simp)

lemma size_append : (ds.append es).size = ds.size + es.size := by simp [size_eq]

lemma append_hoist (start middle : Nat) :
    ds.append (es.hoist start middle) = (ds.append es).hoist (ds.size + start) (ds.size + middle) := by
  apply ext_toList
  simp only [toList_append, toList_hoist, size_eq, hoisted_append, List.length_append,
    Nat.add_le_add_iff_left]
  by_cases h : start ≤ middle ∧ middle ≤ es.entries.toList.length
  · simp only [h, and_self, if_true]
  · simp only [h, if_false]

end Diagnostics

def State.precededBy (s : State) (ds : Diagnostics) (table : TypeTable) : State :=
  { s with diagnostics := ds.append s.diagnostics, types := ⟨s.types.log ++ table.log⟩ }

def State.quiet (s : State) : State := { s with diagnostics := {}, types := {} }

lemma State.precededBy_quiet (s : State) : s.quiet.precededBy s.diagnostics s.types = s := by
  have happend : (.append s.diagnostics {}) = s.diagnostics := ext_toList (by simp)
  simp [precededBy, quiet, happend]

def Action.Steady {β : Type} : Action β → Prop
  | .diagnosticCount | .hoist _ _ => False
  | _ => True

variable {β α : Type} {x : Rule α} {action : Action β} {active : List String}
  {P : {α : Type} → Check α → Prop}

lemma Action.Resolving.steady (h : action.Resolving) : action.Steady := by
  cases action with
  | diagnosticCount | hoist => exact h.elim
  | _ => trivial

/-- What rules for expressions do, apart from visits. -/
def Action.Recording {β : Type} (narrows : Prop) : Action β → Prop
  | .clearNarrowing _ => narrows
  | action => action.Mild

lemma Action.Silent.recording {narrows : Prop} (h : action.Silent) : action.Recording narrows := by
  cases action with
  | clearNarrowing => exact h.elim
  | _ => exact .of_silent h

lemma Action.Steady.step_precededBy (h : action.Steady) (s : State)
    (ds : Diagnostics) (table : TypeTable) : action.step (s.precededBy ds table) =
      ((action.step s).1, (action.step s).2.precededBy ds table) := by
  cases action with
  | diagnosticCount | hoist => exact h.elim
  | report d => simp [step, precededBy, append_push]
  | lookupValueType | declareValue | declareType =>
    simp only [step, precededBy]
    split <;> rfl
  | _ => rfl

namespace Check

variable {α β : Type}

lemma run_lift (action : Action α) (s : State) : run (lift action) s = action.step s := rfl

/-- A property that checks have if their steps do. -/
structure Closed (P : {α : Type} → Check α → Prop) : Prop where
  pure {α : Type} (a : α) : P (pure a)
  bind {α β : Type} {x : Check α} {f : α → Check β} : P x → (∀ a, P (f a)) → P (x >>= f)

lemma Closed.handle (hP : Closed P) {F : Type → Type 1}
    {Q : {β : Type} → F β → Prop} {answer : {β : Type} → F β → Check β}
    (h : ∀ {β : Type} (request : F β), Q request → P (answer request)) {x : Steps F α}
    (hx : x.Uses Q) : P (x.handle answer) := by
  induction x with
  | done a => exact hP.pure a
  | ask request next ih => exact hP.bind (h request hx.1) fun a => ih a (hx.2 a)

lemma Closed.of_rel {R : State → State → Prop} (hrefl : ∀ s, R s s)
    (htrans : ∀ {a b c}, R a b → R b c → R a c) :
    Closed fun {α} (x : Check α) => ∀ s, R s (x.run s).2 where
  pure _ := hrefl
  bind {α β x f} hx hf s := by
    rw [run_bind]
    exact htrans (hx s) (hf _ _)

/-- What the check answers and what it adds is the same whatever was put out before. -/
def Appends (x : Check α) : Prop :=
  ∀ s ds table, x.run (s.precededBy ds table) = ((x.run s).1, (x.run s).2.precededBy ds table)

namespace Appends

protected lemma pure (a : α) : Appends (pure a) := fun _ _ _ => rfl

protected lemma bind {x : Check α} {f : α → Check β} (hx : x.Appends) (hf : ∀ a, (f a).Appends) :
    (x >>= f).Appends := by
  intro s ds table
  simp only [run_bind, hx s ds table, hf _ _ ds table]

lemma lift (action : Action α) (h : action.Steady) : Appends (lift action) := h.step_precededBy

lemma closed : Closed @Appends := ⟨.pure, .bind⟩

lemma run_eq {x : Check α} (hx : x.Appends) (s : State) :
    x.run s = ((x.run s.quiet).1, (x.run s.quiet).2.precededBy s.diagnostics s.types) := by
  conv_lhs => rw [← s.precededBy_quiet, hx]

end Appends

end Check

lemma Rule.toCheck_bind (visits : Visits) (x : Rule α) (f : α → Rule β) :
    (x >>= f).toCheck visits = x.toCheck visits >>= fun a => (f a).toCheck visits :=
  handle_bind _ x f

def Request.Resolving {β : Type} : Request β → Prop
  | .act action => action.Resolving ∧ action.Plain
  | .expand _ _ _ _ => True
  | .expr _ _ | .stmt _ => False

lemma Rule.Silent.resolving (hx : Silent False active x) : x.Uses Request.Resolving :=
  hx.mono fun request hrequest => by
    cases request with
    | act action => exact ⟨.of_silent hrequest.1, hrequest.2.resolve_right not_false⟩
    | expr | stmt => exact hrequest.elim
    | expand active id span cyclic => trivial

lemma Rule.expandAlias_resolving (active : List String) (id : SymbolId) (span : Span)
    (cyclic : Cyclic) : (expandAlias active id span cyclic).Uses Request.Resolving := by
  have hread : Silent False active (symbol id) := symbol_silent id
  refine .bind hread.resolving fun declared => ?_
  split
  · trivial
  · trivial
  · split
    · exact ⟨⟨trivial, rfl⟩, fun _ => trivial⟩
    · exact .bind (resolveIn_does _ cyclic).silent.resolving fun _ =>
        ⟨⟨trivial, trivial⟩, fun _ => trivial⟩

/-- Parts are checked with the same outcome whatever was put out before. -/
structure Visits.Append (visits : Visits) (B : ExprId → Prop) : Prop where
  expr (role : Role) {id : ExprId} : B id → (visits.expr role id).Appends
  expand (id : SymbolId) (span : Span) (cyclic : Cyclic) : (visits.expand [] id span cyclic).Appends

namespace Rule

variable {N : Type} {env : Env} {B : ExprId → Prop} {visits : Visits} {acc : Account N}

lemma toCheck_perform (action : Action α) : (perform action).toCheck visits = lift action := rfl

lemma toCheck_visit (role : Role) (id : ExprId) :
    (visit role id).toCheck visits = visits.expr role id := bind_done _

lemma toCheck_expand (id : SymbolId) (span : Span) (cyclic : Cyclic) :
    toCheck visits (.lift (.expand active id span cyclic)) = visits.expand active id span cyclic :=
  bind_done _

section Closed

variable {P : {α : Type} → Check α → Prop} (hP : Check.Closed P)

include hP

lemma Silent.closed {calls : Prop} (hact : ∀ {β : Type} (action : Action β), action.Silent →
      action.Plain ∨ calls → P (lift action))
    (hexpand : ∀ id span cyclic, P (visits.expand active id span cyclic))
    (hx : Silent calls active x) : P (x.toCheck visits) := by
  refine hP.handle (fun request hrequest => ?_) hx
  cases request with
  | act action => exact hact action hrequest.1 hrequest.2
  | expr | stmt => exact hrequest.elim
  | expand around id span cyclic =>
    obtain rfl : around = active := hrequest
    exact hexpand id span cyclic

lemma Account.Gives.closed [AddCommMonoid N] {K : N} {k : ℕ} {Q : α → Prop} (htidy : ¬acc.tidy)
    (hact : ∀ {β : Type} (action : Action β), action.Recording acc.narrows →
      action.Plain ∨ acc.calls → P (lift action))
    (hexpr : ∀ role id, acc.visits id → P (visits.expr role id))
    (hexpand : ∀ id span cyclic, P (visits.expand [] id span cyclic))
    (hx : acc.Gives [] K k x Q) : P (x.toCheck visits) := by
  induction hx with
  | answer => exact hP.pure _
  | act action h hplain => exact hact action h.recording hplain
  | expand id span cyclic =>
    rw [toCheck_expand]
    exact hexpand id span cyclic
  | visit role _ h =>
    rw [toCheck_visit]
    exact hexpr role _ h
  | record id ty => exact hact (.record id ty) trivial (.inl trivial)
  | clearNarrowing name _ h => exact hact (.clearNarrowing name) h (.inl trivial)
  | operands hint _ hleft hright =>
    have hcount := hact .diagnosticCount trivial (.inl trivial)
    have hhoist (start middle : Nat) := hact (.hoist start middle) trivial (.inl trivial)
    unfold operandTypes
    split
    · simp only [toCheck_bind, toCheck_perform, toCheck_visit]
      refine hP.bind hcount fun _ => hP.bind (hexpr _ _ hright) fun _ => hP.bind hcount fun _ => ?_
      exact hP.bind (hexpr _ _ hleft) fun _ => hP.bind (hhoist _ _) fun _ => hP.pure _
    · simp only [toCheck_bind, toCheck_visit]
      exact hP.bind (hexpr _ _ hleft) fun _ => hP.bind (hexpr _ _ hright) fun _ => hP.pure _
  | bind _ _ hx hf =>
    rw [toCheck_bind]
    exact hP.bind hx fun a => hf a fun h => absurd h htidy
  | mono _ _ _ hx => exact hx

end Closed

lemma Silent.appendsIn
    (hexpand : ∀ id span cyclic, (visits.expand active id span cyclic).Appends) (hx : Silent True active x) :
    (x.toCheck visits).Appends :=
  hx.closed Check.Appends.closed
    (fun action h _ => .lift action (Action.Resolving.steady (.of_silent h))) hexpand

/-- Diagnostics are counted from the same place on, however many come before it. -/
lemma operandTypes_appends (hvisits : visits.Append B) {left right : ExprId} (hleft : B left)
    (hright : B right) (hint : Option Ty) :
    ((operandTypes env left right hint).toCheck visits).Appends := by
  unfold operandTypes
  split
  · intro s ds table
    simp only [toCheck_bind, toCheck_perform, toCheck_visit, run_bind, run_lift,
      Action.step, hvisits.expr _ hright s ds table, hvisits.expr _ hleft _ ds table]
    simp only [precededBy, size_append, ← append_hoist]
    rfl
  · simp only [toCheck_bind, toCheck_visit]
    exact (hvisits.expr _ hleft).bind fun _ => (hvisits.expr _ hright).bind fun _ => .pure _

lemma Account.Gives.appends [AddCommMonoid N] {K : N} {k : ℕ} {Q : α → Prop} (htidy : ¬acc.tidy)
    (hvisits : visits.Append acc.visits) (hx : acc.Gives [] K k x Q) : (x.toCheck visits).Appends := by
  induction hx with
  | answer => exact .pure _
  | act action h => exact .lift action (Action.Resolving.steady (.of_silent h))
  | expand id span cyclic =>
    rw [toCheck_expand]
    exact hvisits.expand id span cyclic
  | visit role _ h =>
    rw [toCheck_visit]
    exact hvisits.expr role h
  | record id ty => exact .lift (.record id ty) trivial
  | clearNarrowing name => exact .lift (.clearNarrowing name) trivial
  | operands hint _ hleft hright => exact operandTypes_appends hvisits hleft hright hint
  | bind _ _ hx hf =>
    rw [toCheck_bind]
    exact hx.bind fun a => hf a fun h => absurd h htidy
  | mono _ _ _ hx => exact hx

/-- To do whatever rules for expressions do, without counting anything. -/
abbrev Account.any (env : Env) : Account Unit where
  env
  visits _ := True
  one _ := ()
  tree _ := ()

abbrev Built (env : Env) (k : ℕ) (x : Rule α) : Prop := (Account.any env).Does [] () k x

lemma expression_built (role : Role) (id : ExprId) :
    Built env ((Account.any env).outlay id) (expression env role id) :=
  expression_does (.of_nowhere rfl rfl rfl (fun _ _ => rfl) fun _ _ _ _ => trivial) (fun _ _ => trivial)
    (fun _ _ _ => trivial) (fun _ _ _ _ => trivial) role

end Rule

namespace Check

variable {env : Env}

lemma Closed.expandWithin (hP : Closed P)
    (hact : ∀ {β : Type} (action : Action β), action.Resolving → action.Plain → P (lift action))
    (habandon : P (lift .abandon)) (depth : Nat) (active : List String) (id : SymbolId)
    (span : Span) (cyclic : Cyclic) : P (expandWithin depth active id span cyclic) := by
  induction depth generalizing active id span cyclic with
  | zero => exact hP.bind habandon fun _ => hP.pure _
  | succ depth ih =>
    refine hP.handle (fun request hrequest => ?_) (expandAlias_resolving ..)
    cases request with
    | act action => exact hact action hrequest.1 hrequest.2
    | expr | stmt => exact hrequest.elim
    | expand active id span cyclic => exact ih active id span cyclic

section Closed

variable (hP : Closed P) (habandon : P (lift .abandon))

include hP habandon

lemma Closed.exprWithin
    (hact : ∀ {β : Type} (action : Action β), action.Recording True → P (lift action))
    (hexpand : ∀ id span cyclic, P (expand [] id span cyclic)) (depth : Nat) (role : Role)
    (id : ExprId) : P (exprWithin env depth role id) := by
  induction depth generalizing role id with
  | zero => exact hP.bind habandon fun _ => hP.pure _
  | succ depth ih =>
    exact (expression_built role id).closed hP not_false (fun action h _ => hact action h)
      (fun role id _ => ih role id) hexpand

variable
  (hact : ∀ {β : Type} (kind : StmtKind) (action : Action β), kind.Performs action → P (lift action))
  (hexpr : ∀ role id, P (expr env role id)) (hexpand : ∀ id span cyclic, P (expand [] id span cyclic))

include hact hexpr hexpand

lemma Closed.stmtWithin (depth : Nat) (id : StmtId) : P (stmtWithin env depth id) := by
  induction depth generalizing id with
  | zero => exact habandon
  | succ depth ih =>
    have hasks : Rule.Asks (env.program.stmt id).kind.Performs (fun _ => True) (fun _ => True)
        (.statement env id) :=
      statement_asks (fun _ _ => trivial) (fun _ _ _ _ => trivial) (fun _ _ => trivial)
        fun _ _ _ _ => trivial
    refine hP.handle (fun request hrequest => ?_) hasks.uses
    cases request with
    | act action => exact hact _ action hrequest
    | expr role id => exact hexpr role id
    | stmt id => exact ih id
    | expand active id span cyclic =>
      obtain rfl : active = [] := hrequest
      exact hexpand id span cyclic

lemma Closed.program (imports : List Ident) : P (program env imports) := by
  have hasks : Rule.Asks (StmtKind.enum default).Performs (fun _ => True) (fun _ => True)
      (Rule.program env imports) :=
    Rule.program_asks (fun _ h => .inl h) (fun _ h => .inr (.inl h)) (fun _ _ => .inr (.inr trivial))
      (fun _ _ => trivial) imports
  refine hP.handle (fun request hrequest => ?_) hasks.uses
  cases request with
  | act action => exact hact (.enum default) action hrequest
  | expr role id => exact hexpr role id
  | stmt id => exact hP.stmtWithin habandon hact hexpr hexpand _ id
  | expand active id span cyclic =>
    obtain rfl : active = [] := hrequest
    exact hexpand id span cyclic

end Closed

lemma expandWithin_appends (depth : Nat) (active : List String) (id : SymbolId) (span : Span)
    (cyclic : Cyclic) : (expandWithin depth active id span cyclic).Appends :=
  Appends.closed.expandWithin (fun action h _ => .lift action h.steady) (.lift .abandon trivial)
    depth active id span cyclic

lemma expand_appends (active : List String) (id : SymbolId) (span : Span) (cyclic : Cyclic) :
    (expand active id span cyclic).Appends :=
  (Appends.lift .symbolCount trivial).bind fun _ => expandWithin_appends _ _ _ _ _

lemma exprWithin_appends (depth : Nat) (role : Role) (id : ExprId) :
    (exprWithin env depth role id).Appends := by
  induction depth generalizing role id with
  | zero => exact (Appends.lift .abandon trivial).bind fun _ => .pure _
  | succ depth ih =>
    have hvisits : Visits.Append { expr := exprWithin env depth, expand } fun _ => True :=
      ⟨fun role id _ => ih role id, expand_appends []⟩
    exact Account.Gives.appends not_false hvisits (expression_built role id)

lemma ofRule_appends {k : ℕ} (hx : Built env k x) : (ofRule env x).Appends :=
  Account.Gives.appends not_false ⟨fun role id _ => exprWithin_appends _ role id, expand_appends []⟩ hx

end Check

end StaticTyping
