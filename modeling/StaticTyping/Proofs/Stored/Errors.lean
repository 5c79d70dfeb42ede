import StaticTyping.Proofs.Output.Sequence
import StaticTyping.Proofs.Stored.Run

/-! Errors do not come unnoticed. Where nothing that is stored holds an error, an expression that is
checked without a report has a type without errors, and so has every expression in it. -/

namespace StaticTyping

open Diagnostics

/-- No part of the type is an error. -/
def Ty.ErrorFree (t : Ty) : Prop := t.Everywhere (· ≠ .error)

lemma Ty.Formed.errorFree {R : SymbolId → Prop} {t : Ty} (h : t.Formed False R) : t.ErrorFree :=
  Everywhere.mono (fun _ hx => hx.2.2) h

/-- All that the symbols and the scopes of a state refer to is there, and their types are in normal form
and free of errors. An alias without a type yet is written without empty unions. -/
structure State.Clean (s : State) : Prop where
  symbols : ∀ symbol ∈ s.symbols.symbols,
    symbol.Holds (· ∈ s.symbols) (Ty.Formed False (· ∈ s.symbols))
  scopes : s.scopes.Holds (· ∈ s.symbols) (Ty.Formed False (· ∈ s.symbols))
  aliases : ∀ symbol ∈ s.symbols.symbols, symbol.kind = .typeAlias → symbol.ty = none →
    ∃ target, symbol.aliasTarget = some target ∧ target.Full

def State.strict (s : State) : Allowance := ⟨False, fun id => (s.symbols.get id).kind = .typeAlias⟩

lemma State.Clean.soundOf {s : State} (h : s.Clean) :
    s.quiet.SoundOf s.strict s.symbols.size where
  size := rfl
  symbols := h.symbols
  scopes := h.scopes
  recorded := nofun
  declarations := False.elim
  contexts := False.elim
  fits _ hid _ := ⟨id, h.aliases _ (SymbolTable.get_mem hid)⟩

lemma Action.size_diagnostics_le {α : Type} (action : Action α) (s : State) :
    s.diagnostics.size ≤ (action.step s).2.diagnostics.size := by
  cases action with
  | report d => simp [step, size_eq]
  | hoist start middle =>
    simp only [step, size_eq, toList_hoist]
    split
    · rename_i h
      exact (hoisted_perm h.1 _).length_eq.ge
    · exact le_rfl
  | lookupValueType | declareValue | declareType =>
    simp only [step]
    split <;> rfl
  | _ => exact le_rfl

namespace Check

variable {env : Env} {id : ExprId}

lemma Along.quiet {α : Type} {x : Check α} {s : State}
    (hproceeds : x.Along (fun action _ => action.Proceeds) s)
    (hsize : (x.run s).2.diagnostics.size ≤ s.diagnostics.size) :
    x.Along (fun action _ => action.Quiet) s := by
  induction x generalizing s with
  | done a => trivial
  | ask action next ih =>
    have hstep := action.size_diagnostics_le s
    have hrest : (action.step s).2.diagnostics.size ≤ _ :=
      Along.rel (R := fun a b => a.diagnostics.size ≤ b.diagnostics.size) (fun _ => le_rfl) le_trans
        (along_of_forall (fun action t => action.size_diagnostics_le t) (next (action.step s).1) _)
    refine ⟨?_, ih _ hproceeds.2 (hsize.trans hstep)⟩
    cases action with
    | abandon => exact hproceeds.1
    | report d =>
      have hmore : s.diagnostics.size + 1 = ((Action.report d).step s).2.diagnostics.size := by
        simp [Action.step, size_eq]
      have hend := hmore ▸ hrest.trans hsize
      omega
    | _ => trivial

/-- The expression comes to an end, and no union in it is empty. -/
def FullExpr (env : Env) (id : ExprId) : Prop :=
  env.program.ExprEnds id ∧
    ∀ a, Relation.ReflTransGen env.program.ExprEdge id a → (env.exprKind a).FullCast

open Classical in
noncomputable def fullVisits (env : Env) (depth : Nat) : Visits where
  expr role id := if FullExpr env id then exprWithin env depth role id else pure .unknown
  expand := expand

lemma fullVisits_expr {depth : Nat} (h : FullExpr env id) (role : Role) :
    (fullVisits env depth).expr role id = exprWithin env depth role id := if_pos h

/-- In an expression without empty unions no others are checked. -/
lemma exprWithin_eq_full (h : FullExpr env id) (depth : Nat) (role : Role) :
    exprWithin env (depth + 1) role id =
      (Rule.expression env role id).toCheck (fullVisits env depth) := by
  have hchild {a b : ExprId} (ha : FullExpr env a) (hb : b ∈ env.program.exprChildren a) :
      FullExpr env b := ⟨ha.1.child hb, fun c hc => ha.2 c (.head hb hc)⟩
  have hdescends : (Rule.Account.trees env (FullExpr env)).Descends :=
    Rule.Account.trees_descends (fun c hc => hc.1) fun _ _ ha hb => hchild ha hb
  have hrule := Rule.expression_does hdescends (fun c hc => hchild h hc) (fun _ _ _ => trivial)
    (fun _ _ _ _ => trivial) role
  exact hrule.toCheck_congr (fun role c hc => (fullVisits_expr hc role).symm) rfl

lemma fullVisits_safe (env : Env) (E : Allowance) (depth : Nat) :
    (fullVisits env depth).Safe E := by
  induction depth with
  | zero =>
    refine { expand_safe with expr := fun {n role s} id hs _ => ?_ }
    by_cases hid : FullExpr env id
    · rw [fullVisits_expr hid]
      exact abandon_meets hs fun hE => ⟨hs, .error hE⟩
    · simp only [fullVisits, if_neg hid]
      exact ⟨hs, .unknown⟩
  | succ depth ih =>
    refine { expand_safe with expr := fun {n role s} id hs hrole => ?_ }
    by_cases hid : FullExpr env id
    · rw [fullVisits_expr hid, exprWithin_eq_full hid]
      exact ih.answers (Rule.expression_answers hrole fun _ => hid.2 id .refl) hs
    · simp only [fullVisits, if_neg hid]
      exact ⟨hs, .unknown⟩

/-- If no diagnostic is added for an expression, there is no error in its type, nor in any of the types
that are recorded for it and for the expressions in it, provided that none is stored or expected. -/
theorem expr_errors_reported {id : ExprId} (hacyclic : env.program.AcyclicExpr id)
    (hfull : ∀ a, Relation.ReflTransGen env.program.ExprEdge id a → (env.exprKind a).FullCast)
    {s : State} (hs : s.Clean) {hint : Option Ty}
    (hhint : ∀ t ∈ hint, t.Formed False (· ∈ s.symbols))
    (hquiet : (expr env (.value hint) id).reports s = []) :
    ((expr env (.value hint) id).run s).1.ErrorFree ∧
      ∃ recorded, ((expr env (.value hint) id).run s).2.types.log = recorded ++ s.types.log ∧
        ∀ entry ∈ recorded, entry.2.ErrorFree := by
  have happends := expr_appends env (.value hint) id
  have hrole : Role.Sound s.strict s.symbols.size (.value hint) := hhint
  have hmeets := (fullVisits_safe env s.strict env.program.exprDepth).expr id hs.soundOf hrole
  rw [fullVisits_expr ⟨hacyclic.ends, hfull⟩] at hmeets
  have hproceeds := (meets_performing_iff.mp (expr_meets hacyclic.ends (.value hint) s.quiet)).1
  have hnothing := happends.reports_eq_quiet s
  rw [hquiet] at hnothing
  have halong := (hproceeds.mono fun _ _ h => h.proceeds).quiet (by simp [size_eq, ← hnothing])
  obtain ⟨-, hsound, hty⟩ := meets_safely hmeets (halong.mono fun _ _ h => .inl h)
  rw [happends.run_eq s]
  exact ⟨hty.errorFree, _, rfl, fun entry hentry => (hsound.recorded entry hentry).errorFree⟩

/-- A number is taken for a value of an alias, in a tuple beside itself. -/
def sizedPair : Env where
  program := {
    expressions := #[⟨{}, .name "x"⟩, ⟨{}, .cast ⟨0⟩ (.named {} "Size" [])⟩, ⟨{}, .tuple [⟨0⟩, ⟨1⟩]⟩] }
  options := {}

/-- The alias is not expanded yet, and something went wrong before. -/
def sizedState : State where
  symbols := ⟨#[{ name := "x", kind := .value, ty := some (.prim .i32) },
    { name := "Size", kind := .typeAlias,
      aliasTarget := some (.named {} "i32" []) }]⟩
  scopes := { inner := { values := [("x", ⟨0⟩)], types := [("Size", ⟨1⟩)] } }
  types := ⟨[(⟨7⟩, .error)]⟩

lemma sizedState_clean : sizedState.Clean where
  symbols symbol h := by
    obtain rfl | rfl : symbol = _ ∨ symbol = _ := by simpa [sizedState] using h
    · exact .ofType (by rintro _ ⟨⟩; exact .prim _) rfl rfl rfl rfl rfl
    · exact .ofType nofun rfl rfl rfl rfl rfl
  scopes frame h := by
    obtain rfl := List.mem_singleton.mp h
    refine ⟨fun entry h => ?_, fun entry h => ?_, nofun⟩
    all_goals
      obtain rfl := List.mem_singleton.mp h
      exact Nat.lt_of_sub_eq_succ rfl
  aliases symbol h hkind _ := by
    obtain rfl | rfl : symbol = _ ∨ symbol = _ := by simpa [sizedState] using h
    · cases hkind
    · exact ⟨_, rfl, .named nofun⟩

theorem expr_errors_reported_alias :
    sizedState.Clean ∧ (expr sizedPair (.value none) ⟨2⟩).reports sizedState = [] ∧
      ((expr sizedPair (.value none) ⟨2⟩).run sizedState).1.ErrorFree ∧
      ∃ recorded, ((expr sizedPair (.value none) ⟨2⟩).run sizedState).2.types.log =
          recorded ++ sizedState.types.log ∧ ∀ entry ∈ recorded, entry.2.ErrorFree := by
  have hacyclic : sizedPair.program.Acyclic := Program.acyclic_of_indices (by decide) (by decide)
  have hfull : ∀ a, (sizedPair.exprKind a).FullCast := by
    rintro ⟨_ | _ | _ | index⟩
    · trivial
    · exact .named nofun
    · trivial
    · trivial
  have hquiet : (expr sizedPair (.value none) ⟨2⟩).reports sizedState = [] := by decide +kernel
  exact ⟨sizedState_clean, hquiet,
    expr_errors_reported (hacyclic.expr ⟨2⟩) (fun a _ => hfull a) sizedState_clean nofun hquiet⟩

/-- An empty array is declared with an element type that is unknown. -/
def missingElement : Env where
  program := {
    expressions := #[⟨{}, .array []⟩]
    statements := #[⟨{}, .bind {
      name := ⟨"x", {}⟩, type := some (.named {} "Array" [.named {} "Missing" []]), value := some ⟨0⟩ }⟩]
    items := [⟨0⟩] }
  options := {}

/-- The array takes the error over from the type that is expected of it. No diagnostic is added for it,
in a state in which nothing is stored. -/
theorem empty_array_takes_error :
    State.Clean {} ∧
      (expr missingElement (.value (some (.array .error))) ⟨0⟩).reports {} = [] ∧
      ((expr missingElement (.value (some (.array .error))) ⟨0⟩).run {}).1 = .array .error ∧
      ¬(Ty.array .error).ErrorFree ∧
      ((check missingElement.program {} []).types.get? ⟨0⟩).map Ty.text = some "Array<<error>>" := by
  refine ⟨⟨by simp, fun frame h => ?_, by simp⟩, by decide +kernel, rfl, fun h => ?_,
    by decide +kernel⟩
  · obtain rfl := List.mem_singleton.mp h
    exact .empty
  · exact (h.inside .error (.head _)).here rfl

end Check

end StaticTyping
