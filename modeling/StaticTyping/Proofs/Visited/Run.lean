import StaticTyping.Proofs.Visited.Stmt

/-! What checking a statement and checking a program does. Where the way down from a statement ends,
the check of the statement ends too and never gives up, whatever state it starts in. -/

namespace StaticTyping

open Rule StaticTyping.Action

lemma Action.Local.proceeds {β : Type} {action : Action β} (h : action.Local) :
    action.Proceeds := by
  cases action with
  | abandon => exact h
  | _ => trivial

namespace Check

variable {env : Env} {id : StmtId}

lemma visits_fulfil (env : Env) {B : StmtId → Prop} {stmt : StmtId → Check Unit}
    (h : ∀ id, B id → ∀ s, (stmt id).Meets (performing fun action _ => action.Proceeds) s
      fun _ t => Outline.Does env.program.Complete (env.program.stmtTree id) s.outline t.outline) :
    Visits.Fulfil { expr := expr env, stmt, expand } (checking env.program B)
      (fun action _ => action.Proceeds) (fun w s => s.outline = w) where
  act {_ action w s} hw hproceeds :=
    ⟨hproceeds, _, rfl, by rw [action.outline_step, hw], hw ▸ action.tells_step s⟩
  expr {role id w s} hw hends := by
    subst hw
    refine (meets_of_allowed (expr_meets hends role s) fun _ _ h => h.proceeds).mono ?_
    exact fun _ t ht => ⟨_, rfl, ht⟩
  stmt {id w s} hw hid := by
    subst hw
    exact (h id hid s).mono fun _ t ht => ⟨_, rfl, ht⟩
  expand {active id span cyclic w s} hw hactive := by
    obtain rfl : active = [] := hactive
    refine (meets_of_allowed (expand_resolves id span cyclic s) fun _ _ h => h.local.proceeds).mono ?_
    exact fun _ t ht => ⟨_, rfl, ht.trans hw⟩

/-- At a depth at which the way down from a statement ends, checking it records all of its
expressions if the declarations are complete, and leaves scopes and contexts as whole statements do.
-/
lemma stmtWithin_meets {depth : Nat} (hdepth : env.program.StmtEndsWithin depth id)
    (hends : env.program.StmtEnds id) (s : State) :
    (stmtWithin env depth id).Meets (performing fun action _ => action.Proceeds) s fun _ t =>
      Outline.Does env.program.Complete (env.program.stmtTree id) s.outline t.outline := by
  induction depth generalizing id s with
  | zero => exact hdepth.elim
  | succ depth ih =>
    -- The depth that is left is enough for the children, and their trees are those at full depth.
    let B (c : StmtId) : Prop := env.program.StmtEndsWithin depth c ∧ env.program.StmtEnds c
    have hdescends : Rule.StmtDescends env.program B :=
      ⟨fun c hc => hc.2, fun a b ha hb => ⟨ha.1.child hb, ha.2.child hb⟩⟩
    have hvisits := visits_fulfil env (B := B) fun c hc s => ih hc.1 hc.2 s
    have hrule := statement_checks hdescends hdepth.1 fun c hc => ⟨hdepth.2 c hc, hends.child hc⟩
    refine (toCheck_meets hvisits (hrule s.outline) rfl).mono ?_
    rintro _ t ⟨_, rfl, ht⟩
    rw [hends.stmtTree_eq]
    exact ht

lemma stmt_meets (h : env.program.StmtEnds id) (s : State) :
    (stmt env id).Meets (performing fun action _ => action.Proceeds) s fun _ t =>
      Outline.Does env.program.Complete (env.program.stmtTree id) s.outline t.outline :=
  stmtWithin_meets h h s

/-- The check of a program never gives up, and what it records are the trees of its items. -/
lemma program_meets (env : Env) (h : ∀ id ∈ env.program.items, env.program.StmtEnds id)
    (imports : List Ident) :
    (program env imports).Meets (performing fun action _ => action.Proceeds) {} fun _ t =>
      t.outline.recorded = (env.program.items.map env.program.stmtTree).sum := by
  have hvisits := visits_fulfil env fun c hc s => stmt_meets hc s
  have hrule := program_checks h imports
  refine (toCheck_meets hvisits (hrule (State.outline {})) rfl).mono ?_
  rintro _ t ⟨_, rfl, ht⟩
  -- At the start nothing is declared, so no method is missing.
  have hcomplete : env.program.Complete (State.outline {}).declared := by
    intro id hid
    simp [State.outline] at hid
  simpa [State.outline] using ht.recorded hcomplete

end Check

end StaticTyping
