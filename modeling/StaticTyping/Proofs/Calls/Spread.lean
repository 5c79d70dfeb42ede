import StaticTyping.Proofs.Relation

/-! To spread a tuple that is written out is to write its elements. Both calls do the same step by step,
but for the type of the tuple, which only the spread records. Nothing that is recorded is ever read,
so it makes no difference to what follows. -/

namespace StaticTyping

open Check List Rule

/-- The states differ in nothing but the type that is recorded for one expression. -/
structure State.AgreesBut (id : ExprId) (s t : State) : Prop where
  rest : t = { s with types := t.types }
  types : ∀ other, other ≠ id → t.types.get? other = s.types.get? other

variable {id : ExprId} {env : Env}

namespace State.AgreesBut

variable {s t : State}

lemma refl (s : State) : s.AgreesBut id s := ⟨rfl, fun _ _ => rfl⟩

lemma recorded (h : s.AgreesBut id t) (ty : Ty) :
    ((Action.record id ty).step s).2.AgreesBut id t := by
  refine ⟨h.rest, fun other hother => ?_⟩
  simp [Action.step, TypeTable.get?_record, hother, h.types other hother]

end State.AgreesBut

lemma State.agreesBut_iff {s t : State} :
    s.AgreesBut id t ↔ s.DiffersIn (TypeTable.AgreesOff [id]) Eq t := by
  constructor
  · intro h
    have hdiagnostics : t.diagnostics = s.diagnostics := by rw [h.rest]
    have hrest := h.rest
    rw [← hdiagnostics] at hrest
    exact ⟨hrest, fun other hother => h.types other (by simpa using hother), hdiagnostics.symm⟩
  · intro h
    have hrest := h.rest
    rw [← h.diagnostics] at hrest
    exact ⟨hrest, fun other hother => h.types other (by simpa using hother)⟩

lemma State.AgreesBut.unnoticed (id : ExprId) : Unnoticed (AgreesBut id) := by
  have h : Unnoticed (DiffersIn (TypeTable.AgreesOff [id]) Eq) := by
    apply DiffersIn.unnoticed
    · exact fun _ _ recorded ty h => h.record recorded ty
    · rintro _ _ _ rfl
      rfl
    · rintro _ _ _ _ rfl
      rfl
    · rintro _ _ rfl
      rfl
  intro β action s t hst
  simpa only [agreesBut_iff] using h action s t (agreesBut_iff.mp hst)

namespace Rule

variable {α β σ : Type}

abbrev SameBut (env : Env) (id : ExprId) (x y : Rule α) : Prop :=
  Relates env (State.AgreesBut id) x y (Same (State.AgreesBut id))

namespace SameBut

protected lemma refl (x : Rule α) : SameBut env id x x :=
  Relates.refl (State.AgreesBut.unnoticed id) x

lemma andThen (x : Rule α) {f g : α → Rule β} (hfg : ∀ a, SameBut env id (f a) (g a)) :
    SameBut env id (x >>= f) (x >>= g) :=
  (SameBut.refl x).bindSame hfg

lemma recordFirst (ty : Ty) (x : Rule α) : SameBut env id (do record id ty; x) x := by
  intro s t hst
  exact SameBut.refl x _ t (hst.recorded ty)

lemma foldlM {f : σ → β → Rule σ} {items : List β} {item : β}
    (h : ∀ a, SameBut env id (f a item) (items.foldlM f a)) (before after : List β) (a : σ) :
    SameBut env id ((before ++ item :: after).foldlM f a)
      ((before ++ items ++ after).foldlM f a) := by
  simp only [append_assoc, foldlM_append, foldlM_cons]
  exact andThen _ fun b => (h b).bindSame fun _ => SameBut.refl _

lemma forM {f : β → Rule Unit} {items : List β} {item : β}
    (h : SameBut env id (f item) (items.forM f)) (before after : List β) :
    SameBut env id ((before ++ item :: after).forM f) ((before ++ items ++ after).forM f) := by
  simp only [forM_eq_forM, append_assoc, forM_append, forM_cons] at h ⊢
  exact andThen _ fun _ => h.bindSame fun _ => SameBut.refl _

end SameBut

end Rule

/-- The first argument spreads a tuple that is written out, and the others are its elements. -/
structure Argument.SpreadsAs (env : Env) (spread : Argument) (written : List Argument) : Prop where
  kind : spread.kind = .spread
  tuple : env.exprKind spread.value = .tuple (written.map (·.value))
  positional : ∀ arg ∈ written, arg.kind = .positional

lemma Argument.SpreadsAs.child {spread arg : Argument} {written : List Argument}
    (h : spread.SpreadsAs env written) (harg : arg ∈ written) :
    arg.value ∈ env.program.exprChildren spread.value := by
  show arg.value ∈ (env.exprKind spread.value).children
  rw [h.tuple]
  exact mem_map_of_mem harg

namespace Rule

variable {spread : Argument} {written : List Argument}

section Binding

variable {sig : Signature}

lemma bindEach_sameBut (h : ∀ arg ∈ written, arg.kind = .positional) (f : List Ty → Ty)
    (b : Binding) :
    SameBut env id
      (do
        let bound ← bindEach env sig b ((written.map (·.value)).map .expr)
        record id (f bound.1)
        return bound.2)
      (written.foldlM (bindArgument env sig) b) := by
  -- What is recorded in the end needs the types of all elements, so `f` holds those that are known.
  induction written generalizing f b with
  | nil => exact .recordFirst (f []) (pure b)
  | cons arg rest ih =>
    obtain ⟨harg, hrest⟩ := forall_mem_cons.mp h
    simp only [map_cons, bindEach, foldlM_cons, bindArgument, harg, bind_assoc,
      pure_bind]
    exact .andThen _ fun first => ih hrest (fun types => f (first.1 :: types)) first.2

lemma bindArgument_sameBut (h : spread.SpreadsAs env written) (b : Binding) :
    SameBut env spread.value (bindArgument env sig b spread)
      (written.foldlM (bindArgument env sig) b) := by
  have hbind : bindArgument env sig b spread = do
      let bound ← bindEach env sig b ((written.map (·.value)).map .expr)
      record spread.value (.tuple bound.1)
      return bound.2 := by
    simp only [bindArgument, h.kind, h.tuple]
  rw [hbind]
  exact bindEach_sameBut h.positional .tuple b

end Binding

section Counting

variable {params : List Ty}

lemma countElements_sameBut (h : ∀ arg ∈ written, arg.kind = .positional) (f : List Ty → Ty)
    (n : Count) :
    SameBut env id
      (do
        let types ← countElements env params n.supplied (written.map (·.value))
        record id (f types)
        return { n with supplied := n.supplied + written.length })
      (written.foldlM (countArgument env params) n) := by
  induction written generalizing f n with
  | nil => exact .recordFirst (f []) (pure n)
  | cons arg rest ih =>
    obtain ⟨harg, hrest⟩ := forall_mem_cons.mp h
    simp only [map_cons, countElements, foldlM_cons, countArgument, harg, bind_assoc,
      pure_bind, length_cons]
    apply SameBut.andThen
    intro ty
    have hnext := ih hrest (fun types => f (ty :: types)) { n with supplied := n.supplied + 1 }
    simpa only [Nat.add_assoc, Nat.add_comm 1] using hnext

lemma countArgument_sameBut (h : spread.SpreadsAs env written) (n : Count) :
    SameBut env spread.value (countArgument env params n spread)
      (written.foldlM (countArgument env params) n) := by
  have hcount : countArgument env params n spread = do
      let types ← countElements env params n.supplied (written.map (·.value))
      record spread.value (.tuple types)
      return { n with supplied := n.supplied + written.length } := by
    simp only [countArgument, h.kind, h.tuple, length_map]
  rw [hcount]
  exact countElements_sameBut h.positional .tuple n

end Counting

section Untracked

lemma elementTypes_sameBut (f : List Ty → Ty) :
    SameBut env id
      (do
        let types ← elementTypes [] (written.map (·.value))
        record id (f types))
      (written.forM fun arg => visitOnly arg.value) := by
  induction written generalizing f with
  | nil => exact .recordFirst (f []) (pure ())
  | cons arg rest ih =>
    simp only [map_cons, elementTypes, head?_nil, tail_nil, visitOnly, bind_assoc,
      pure_bind]
    exact .andThen _ fun ty => ih fun types => f (ty :: types)

lemma visitOnly_sameBut (h : spread.SpreadsAs env written)
    (hends : env.program.ExprEnds spread.value) : SameBut env spread.value (visitOnly spread.value)
      (written.forM fun arg => visitOnly arg.value) := by
  have hexpression : expression env (.value none) spread.value = do
      let types ← elementTypes [] (written.map (·.value))
      record spread.value (.tuple types)
      return .tuple types := by
    simp only [expression, roleType, valueType, h.tuple, tupleType, bind_assoc, pure_bind]
  have hvisit : ofRule env (visitOnly spread.value) = ofRule env (do
      let types ← elementTypes [] (written.map (·.value))
      record spread.value (.tuple types)) := by
    simp only [visitOnly, ofRule_bind, ofRule_visit _ hends, hexpression, bind_assoc]
    rfl
  intro s t hst
  rw [hvisit]
  exact elementTypes_sameBut .tuple s t hst

end Untracked

section Place

variable (before after : List Argument) (span : Span)

lemma callType_sameBut (h : spread.SpreadsAs env written)
    (hends : env.program.ExprEnds spread.value) (callee : ExprId) :
    SameBut env spread.value (callType env callee (before ++ spread :: after) span)
      (callType env callee (before ++ written ++ after) span) := by
  apply SameBut.andThen
  intro found
  cases found with
  | bound sig result =>
    refine .bindSame ?_ fun _ => SameBut.refl _
    exact (SameBut.foldlM (bindArgument_sameBut h) before after _).bindSame fun _ => SameBut.refl _
  | unnamed params result =>
    refine .bindSame ?_ fun _ => SameBut.refl _
    exact (SameBut.foldlM (countArgument_sameBut h) before after _).bindSame fun _ => SameBut.refl _
  | untracked result =>
    exact (SameBut.forM (visitOnly_sameBut h hends) before after).bindSame fun _ => SameBut.refl _

end Place

end Rule

namespace Check

lemma callType_proceeds {callee : ExprId} {args : List Argument}
    (hcallee : env.program.ExprEnds callee) (hargs : ∀ arg ∈ args, env.program.ExprEnds arg.value)
    (span : Span) (s : State) :
    (ofRule env (callType env callee args span)).Along (fun action _ => action.Proceeds) s :=
  ofRule_proceeds (callType_does (descends_exprEnds env) trivial hcallee hargs
    fun arg _ => Account.spares_of_nowhere rfl arg) s

/-- In any state, whatever is called and whatever other arguments there are, a call that spreads a
tuple written out and the call with the elements of the tuple in its place come to the same type and
to the same diagnostics. They leave the same state but for the type of the tuple. Neither gives up
where the way down from the parts of the call ends. -/
theorem callType_spread_tuple (callee : ExprId) (before after : List Argument) (span : Span)
    {spread : Argument} {written : List Argument} (h : spread.SpreadsAs env written)
    (hspread : env.program.AcyclicExpr spread.value) (s : State) :
    let spreading := ofRule env (Rule.callType env callee (before ++ spread :: after) span)
    let writing := ofRule env (Rule.callType env callee (before ++ written ++ after) span)
    (spreading.run s).1 = (writing.run s).1 ∧
      (spreading.run s).2.diagnostics = (writing.run s).2.diagnostics ∧
      (spreading.run s).2.AgreesBut spread.value (writing.run s).2 ∧
      (env.program.AcyclicExpr callee →
        (∀ arg ∈ before ++ after, env.program.AcyclicExpr arg.value) →
        spreading.Along (fun action _ => action.Proceeds) s ∧
          writing.Along (fun action _ => action.Proceeds) s) := by
  intro spreading writing
  -- Both calls start in the same state, which agrees with itself.
  have hsame := callType_sameBut before after span h hspread.ends callee
  obtain ⟨htype, hstate⟩ := hsame s s (.refl s)
  have hdiagnostics := congrArg State.diagnostics hstate.rest
  refine ⟨htype, hdiagnostics.symm, hstate, fun hcallee hargs => ?_⟩
  have hothers : ∀ arg ∈ before ++ after, env.program.ExprEnds arg.value :=
    fun arg harg => (hargs arg harg).ends
  constructor
  · apply callType_proceeds hcallee.ends
    intro arg harg
    by_cases heq : arg = spread
    · exact heq ▸ hspread.ends
    · exact hothers arg (by simpa [heq] using harg)
  · apply callType_proceeds hcallee.ends
    intro arg harg
    by_cases hmem : arg ∈ written
    · exact hspread.ends.child (h.child hmem)
    · exact hothers arg (by simpa [hmem] using harg)

/-- A function, and the parts of a call of it that spreads a tuple of two after a named argument. -/
def spreadSample : Env where
  program := { expressions := #[⟨{}, .name "f"⟩, ⟨{}, .literal (.bool true)⟩,
    ⟨{}, .literal (.int "1")⟩, ⟨{}, .literal (.string "a")⟩, ⟨{}, .tuple [⟨2⟩, ⟨3⟩]⟩] }
  options := {}

lemma spreadSample_acyclic (id : ExprId) : spreadSample.program.AcyclicExpr id :=
  fun a _ => Program.exprs_acyclic_of_descending (by decide) a

theorem callType_spread_tuple_sample :
    let spread : Argument := { kind := .spread, value := ⟨4⟩ }
    let written : List Argument :=
      [{ kind := .positional, value := ⟨2⟩ }, { kind := .positional, value := ⟨3⟩ }]
    let before : List Argument := [{ kind := .named ⟨"flag", {}⟩, value := ⟨1⟩ }]
    let s : State := {
      symbols := ⟨#[{
        name := "f", kind := .function
        params := [{ name := "n", ty := .prim .i32 }, { name := "flag", ty := .bool }] }]⟩
      scopes := { inner := { values := [("f", ⟨0⟩)] } } }
    let spreading := ofRule spreadSample
      (callType spreadSample ⟨0⟩ (before ++ spread :: []) {})
    let writing := ofRule spreadSample
      (callType spreadSample ⟨0⟩ (before ++ written ++ []) {})
    spread.SpreadsAs spreadSample written ∧ spreadSample.program.AcyclicExpr spread.value ∧
      (spreading.run s).1 = (writing.run s).1 ∧
      (spreading.run s).2.diagnostics = (writing.run s).2.diagnostics ∧
      (spreading.run s).2.AgreesBut spread.value (writing.run s).2 ∧
      spreading.Along (fun action _ => action.Proceeds) s ∧
      writing.Along (fun action _ => action.Proceeds) s := by
  intro spread written before s spreading writing
  have hspreads : spread.SpreadsAs spreadSample written := ⟨rfl, rfl, by decide⟩
  have hsample := callType_spread_tuple ⟨0⟩ before [] {} hspreads (spreadSample_acyclic _) s
  obtain ⟨htype, hdiagnostics, hstate, hproceeds⟩ := hsample
  exact ⟨hspreads, spreadSample_acyclic _, htype, hdiagnostics, hstate,
    hproceeds (spreadSample_acyclic _) fun _ _ => spreadSample_acyclic _⟩

end Check

end StaticTyping
