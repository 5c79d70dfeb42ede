import StaticTyping.Check.Program
import StaticTyping.Proofs.Stored.Call
import StaticTyping.Proofs.Stored.Stmt

/-! Every state that a check of a program passes through is sound, to whatever depth its parts are
checked. So every type in it is in normal form. -/

namespace StaticTyping

open StaticTyping.Action Rule Check

/-- An action is performed in a sound state and on symbols that the state has. -/
def Action.Safe (E : Allowance) {β : Type} (action : Action β) (s : State) : Prop :=
  (∃ n, s.SoundOf E n) ∧ ∀ id ∈ action.indexed s, id ∈ s.symbols

/-- Actions as they are performed. Where there must be no errors, what follows a report does not
count. -/
def Action.safely (E : Allowance) : Contract Action State where
  requires action s := action.Safe E s
  ensures action s answer after := action.step s = (answer, after) ∧ (action.Quiet ∨ E.errors)

variable {α : Type} {s : State} {x : Check α} {Q : α → State → Prop}

lemma Check.meets_safely {E : Allowance} (h : x.Meets (safely E) s Q)
    (hquiet : x.Along (fun action _ => action.Quiet ∨ E.errors) s) :
    x.Along (fun action t => action.Safe E t) s ∧ Q (x.run s).1 (x.run s).2 := by
  induction x generalizing s with
  | done a => exact ⟨trivial, h⟩
  | ask action next ih =>
    have hnext := ih _ (h.2 _ _ ⟨rfl, hquiet.1⟩) hquiet.2
    exact ⟨⟨h.1, hnext.1⟩, hnext.2⟩

lemma Check.performs_safely (h : x.Meets (safely {}) s Q) :
    x.Meets (performing fun action t => action.Safe {} t) s Q :=
  meets_performing_iff.mpr (meets_safely h (along_of_forall (fun _ _ => .inr trivial) x s))

structure Visits.Safe (E : Allowance) (visits : Visits) : Prop where
  expr {n : Nat} {role : Role} {s : State} (id : ExprId) : s.SoundOf E n → role.Sound E n →
    (visits.expr role id).Meets (safely E) s fun ty t => t.SoundOf E n ∧ ty.Sound E n
  stmt {n : Nat} {s : State} (id : StmtId) : s.SoundOf E n → E.errors →
    (visits.stmt id).Meets (safely E) s fun _ t => ∃ m, t.SoundOf E m ∧ n ≤ m
  expand {n : Nat} {id : SymbolId} {cyclic : Cyclic} {s : State} (active : List String) (span : Span) :
    s.SoundOf E n → id.index < n → (¬E.errors → E.expands id) → (∀ name ∈ cyclic, E.errors) →
    (visits.expand active id span cyclic).Meets (safely E) s
      fun found t => t.SoundOf E n ∧ ResolvesTo E n found

namespace Visits.Safe

variable {E : Allowance} {visits : Visits} {α : Type} {n : Nat} {s : State} {rule : Rule α}

lemma toCheck (h : visits.Safe E) {Q : α → Nat → Prop}
    (hrule : rule.Meets (soundly E) n Q) (hs : s.SoundOf E n) :
    (rule.toCheck visits).Meets (safely E) s fun a t => ∃ m, t.SoundOf E m ∧ Q a m := by
  refine .handle (fun request n s hs hrequest => ?_) hrule hs
  cases request with
  | act action =>
    refine ⟨⟨⟨n, hs⟩, indexed_mem hs hrequest⟩, ?_⟩
    rintro answer after ⟨hstep, hquiet⟩
    have hsound := step_sound hs hrequest
    have hgives := step_gives hs hrequest
    rw [hstep] at hsound hgives
    exact ⟨_, hsound, ⟨rfl, hgives⟩, hquiet⟩
  | expr role id => exact (h.expr id hs hrequest).mono fun _ _ ht => ⟨_, ht.1, rfl, ht.2⟩
  | stmt id => exact (h.stmt id hs hrequest).mono fun _ _ ht => ht
  | expand active id span cyclic =>
    obtain ⟨hid, hexpands, hcyclic⟩ := hrequest
    exact (h.expand active span hs hid hexpands hcyclic).mono fun _ _ ht => ⟨_, ht.1, rfl, ht.2⟩

lemma answers (h : visits.Safe E) {A : α → Prop}
    (hrule : Rule.Answers E n rule A) (hs : s.SoundOf E n) :
    (rule.toCheck visits).Meets (safely E) s fun a t => t.SoundOf E n ∧ A a := by
  refine (h.toCheck hrule hs).mono ?_
  rintro a t ⟨m, ht, rfl, ha⟩
  exact ⟨ht, ha⟩

lemma grows (h : visits.Safe {}) {A : Nat → α → Prop}
    (hrule : Rule.Grows n rule A) (hs : s.SoundOf {} n) :
    (rule.toCheck visits).Meets (performing fun action t => action.Safe {} t) s
      fun _ t => ∃ m, t.SoundOf {} m ∧ n ≤ m := by
  refine (performs_safely (h.toCheck hrule hs)).mono ?_
  rintro a t ⟨m, ht, hnm, -⟩
  exact ⟨m, ht, hnm⟩

end Visits.Safe

namespace Check

variable {E : Allowance} {n : Nat} {s : State} {env : Env}

lemma abandon_meets {a : α} (hs : s.SoundOf E n) (h : E.errors → Q a s) :
    (do Steps.lift .abandon; return a : Check α).Meets (safely E) s Q := by
  refine ⟨⟨⟨n, hs⟩, nofun⟩, ?_⟩
  rintro _ _ ⟨⟨⟩, hquiet⟩
  exact h (hquiet.resolve_left id)

lemma abandonExpand_meets (hs : s.SoundOf E n) {cyclic : Cyclic}
    (hcyclic : ∀ name ∈ cyclic, E.errors) :
    (do Steps.lift .abandon; return (Ty.error, cyclic) : Check (Ty × Cyclic)).Meets (safely E) s
      fun found t => t.SoundOf E n ∧ ResolvesTo E n found :=
  abandon_meets hs fun hE => ⟨hs, .error hE, hcyclic⟩

lemma safe_default : Visits.Safe E {} where
  expr _ hs _ := abandon_meets hs fun hE => ⟨hs, .error hE⟩
  stmt _ hs _ := abandon_meets (a := ()) hs fun _ => ⟨_, hs, le_rfl⟩
  expand _ _ hs _ _ hcyclic := abandonExpand_meets hs hcyclic

lemma expandWithin_safe (depth : Nat) : Visits.Safe E { expand := expandWithin depth } := by
  induction depth with
  | zero =>
    exact { safe_default with expand := fun _ _ hs _ _ hcyclic => abandonExpand_meets hs hcyclic }
  | succ depth ih =>
    refine { safe_default with expand := fun active span hs hid hexpands hcyclic => ?_ }
    exact ih.answers (expandAlias_answers hid hexpands hcyclic) hs

lemma expand_safe : Visits.Safe E { expand } := by
  refine { safe_default with expand := ?_ }
  intro n id cyclic s active span hs hid hexpands hcyclic
  -- The first action asks for the number of symbols, which is the depth to go to.
  refine ⟨⟨⟨n, hs⟩, nofun⟩, ?_⟩
  rintro _ _ ⟨⟨⟩, -⟩
  exact (expandWithin_safe (s.symbols.size + 1)).expand active span hs hid hexpands hcyclic

lemma exprWithin_safe (depth : Nat) : Visits.Safe {} { expr := exprWithin env depth, expand } := by
  induction depth with
  | zero => exact { expand_safe with expr := fun _ hs _ => abandon_meets hs fun hE => ⟨hs, .error hE⟩ }
  | succ depth ih =>
    refine { expand_safe with expr := fun id hs hrole => ?_ }
    exact ih.answers (expression_answers hrole fun hno => (hno trivial).elim) hs

lemma stmtWithin_safe (depth : Nat) :
    Visits.Safe {} { expr := expr env, stmt := stmtWithin env depth, expand } := by
  induction depth with
  | zero =>
    refine { exprWithin_safe _ with stmt := fun _ hs _ => ?_ }
    exact abandon_meets (a := ()) hs fun _ => ⟨_, hs, le_rfl⟩
  | succ depth ih =>
    refine { exprWithin_safe _ with stmt := fun id hs _ => ?_ }
    exact (ih.toCheck (statement_grows id) hs).mono fun _ _ ⟨m, ht, hnm, _⟩ => ⟨m, ht, hnm⟩

lemma start_sound : State.SoundOf {} 0 {} := by
  refine ⟨rfl, by simp, fun frame hframe => ?_, by simp, by simp, by simp, nofun⟩
  obtain rfl := List.mem_singleton.mp hframe
  exact .empty

lemma program_safe (env : Env) (imports : List Ident) :
    (program env imports).Meets (performing fun action t => action.Safe {} t) {}
      fun _ t => t.Sound := by
  refine ((stmtWithin_safe _).grows (program_grows imports) start_sound).mono ?_
  rintro _ t ⟨m, ht, -⟩
  exact ht.sound

lemma program_sound (env : Env) (imports : List Ident) :
    ∀ s ∈ (program env imports).states {}, s.Sound := by
  obtain ⟨halong, hlast⟩ := meets_performing_iff.mp (program_safe env imports)
  exact forall_mem_states (halong.mono fun _ _ hsafe => hsafe.1.elim fun _ hs => hs.sound) hlast

end Check

/-- At every point of a check each type that is stored anywhere is in normal form, and so is each
type that the check gives for an expression. -/
theorem check_types_normal (p : Program) (options : Options) (imports : List Ident) :
    (∀ s ∈ (Check.program ⟨p, options⟩ imports).states {}, s.Holds (fun _ => True) Ty.Normal) ∧
      ∀ id ty, (check p options imports).types.get? id = some ty → ty.Normal := by
  constructor
  · intro s hs
    have hsound := program_sound ⟨p, options⟩ imports s hs
    exact hsound.mono (fun _ _ => trivial) fun _ ht => ht.normal
  · intro id ty hty
    have hsafe := program_safe ⟨p, options⟩ imports
    have hlast := (meets_performing_iff.mp hsafe).2
    exact (hlast.recorded _ (mem_of_lookup_eq_some hty)).normal

end StaticTyping
