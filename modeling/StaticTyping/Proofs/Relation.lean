import StaticTyping.Proofs.Visited.Depth

/-! Two rules side by side. From states that are related, both are followed to their ends, and what they
come to is related again. A relation that no action can tell apart is kept by every rule. -/

namespace StaticTyping

open Check TypeTable

variable {α β : Type} {R : State → State → Prop}

/-- From related states, every action answers the same and leaves related states. -/
def Unnoticed (R : State → State → Prop) : Prop :=
  ∀ {β : Type} (action : Action β) (s t : State), R s t →
    (action.step s).1 = (action.step t).1 ∧ R (action.step s).2 (action.step t).2

lemma Check.run_unnoticed (h : Unnoticed R) (x : Check α) {s t : State} (hst : R s t) :
    (x.run s).1 = (x.run t).1 ∧ R (x.run s).2 (x.run t).2 := by
  induction x generalizing s t with
  | done a => exact ⟨rfl, hst⟩
  | ask action next ih =>
    obtain ⟨hanswer, hafter⟩ := h action s t hst
    have hnext := ih (action.step s).1 hafter
    simpa only [run, hanswer] using hnext

lemma TypeTable.get?_record (table : TypeTable) (id other : ExprId) (ty : Ty) :
    (table.record id ty).get? other = if other = id then some ty else table.get? other := by
  by_cases h : other = id
  · simp [record, get?, h]
  · simp [record, get?, List.lookup_cons, h, beq_false_of_ne h]

def TypeTable.AgreesOff (ids : List ExprId) (table other : TypeTable) : Prop :=
  ∀ id, id ∉ ids → other.get? id = table.get? id

namespace TypeTable.AgreesOff

variable {ids : List ExprId} {table other : TypeTable}

lemma record (h : AgreesOff ids table other) (id : ExprId) (ty : Ty) :
    AgreesOff ids (table.record id ty) (other.record id ty) := by
  intro read hread
  simp [get?_record, h read hread]

lemma recordFirst (h : AgreesOff ids table other) {id : ExprId} (hid : id ∈ ids) (ty : Ty) :
    AgreesOff ids (table.record id ty) other := by
  intro read hread
  have hne : read ≠ id := fun heq => hread (heq ▸ hid)
  simp [get?_record, hne, h read hread]

end TypeTable.AgreesOff

/-- The states differ in nothing but what is put out: recorded types as `T` says and diagnostics as `D`
says. -/
structure State.DiffersIn (T : TypeTable → TypeTable → Prop) (D : Diagnostics → Diagnostics → Prop)
    (s t : State) : Prop where
  rest : t = { s with types := t.types, diagnostics := t.diagnostics }
  types : T s.types t.types
  diagnostics : D s.diagnostics t.diagnostics

/-- No action reads recorded types, and all that is read of diagnostics is their number. -/
lemma State.DiffersIn.unnoticed {T : TypeTable → TypeTable → Prop}
    {D : Diagnostics → Diagnostics → Prop}
    (hrecord : ∀ a b id ty, T a b → T (a.record id ty) (b.record id ty))
    (hpush : ∀ ds es d, D ds es → D (ds.push d) (es.push d))
    (hhoist : ∀ ds es start middle, D ds es → D (ds.hoist start middle) (es.hoist start middle))
    (hsize : ∀ ds es, D ds es → ds.size = es.size) : Unnoticed (DiffersIn T D) := by
  rintro β action s t ⟨hrest, htypes, hdiagnostics⟩
  generalize t.types = types at hrest htypes
  generalize t.diagnostics = diagnostics at hrest hdiagnostics
  subst hrest
  cases action with
  | record id ty => exact ⟨rfl, rfl, hrecord _ _ id ty htypes, hdiagnostics⟩
  | report d => exact ⟨rfl, rfl, htypes, hpush _ _ d hdiagnostics⟩
  | hoist start middle => exact ⟨rfl, rfl, htypes, hhoist _ _ start middle hdiagnostics⟩
  | diagnosticCount => exact ⟨hsize _ _ hdiagnostics, rfl, htypes, hdiagnostics⟩
  | lookupValueType | declareValue | declareType =>
    simp only [Action.step]
    split <;> exact ⟨rfl, rfl, htypes, hdiagnostics⟩
  | _ => exact ⟨rfl, rfl, htypes, hdiagnostics⟩

namespace Rule

variable {γ δ : Type} {env : Env} {P : State → State → Prop} {f : α → Rule γ}
  {S : γ → δ → State → State → Prop}

/-- From states as `P` says, the rules come to answers and states as `Q` says. -/
def Relates (env : Env) (P : State → State → Prop) (x : Rule α) (y : Rule β)
    (Q : α → β → State → State → Prop) : Prop :=
  ∀ s t, P s t → Q ((ofRule env x).run s).1 ((ofRule env y).run t).1
    ((ofRule env x).run s).2 ((ofRule env y).run t).2

def Same (R : State → State → Prop) (a b : α) (s t : State) : Prop := a = b ∧ R s t

namespace Relates

variable {x : Rule α} {y : Rule β} {Q : α → β → State → State → Prop} {g : α → Rule δ}

protected lemma refl (h : Unnoticed R) (x : Rule α) : Relates env R x x (Same R) :=
  fun _ _ hst => (ofRule env x).run_unnoticed h hst

protected lemma pure {a : α} {b : β} (h : ∀ s t, P s t → Q a b s t) :
    Relates env P (pure a) (pure b) Q := h

protected lemma bind {g : β → Rule δ} (hxy : Relates env P x y Q)
    (hfg : ∀ a b, Relates env (Q a b) (f a) (g b) S) : Relates env P (x >>= f) (y >>= g) S := by
  intro s t hst
  simp only [ofRule_bind, run_bind]
  exact hfg _ _ _ _ (hxy s t hst)

/-- What is known of the answers so far goes before what relates the states. -/
lemma assume {p : Prop} (h : p → Relates env P x y Q) : Relates env (fun s t => p ∧ P s t) x y Q :=
  fun s t hst => h hst.1 s t hst.2

lemma bindSame {y : Rule α} (hxy : Relates env P x y (Same R))
    (hfg : ∀ a, Relates env R (f a) (g a) S) : Relates env P (x >>= f) (y >>= g) S := by
  refine hxy.bind fun a b => .assume ?_
  rintro rfl
  exact hfg a

lemma andThen (h : Unnoticed R) (x : Rule α) {Q : γ → δ → State → State → Prop}
    (hfg : ∀ a, Relates env R (f a) (g a) Q) : Relates env R (x >>= f) (x >>= g) Q :=
  (Relates.refl h x).bindSame hfg

lemma first {f : α → Rule γ} {y : Rule δ} {Q : γ → δ → State → State → Prop}
    (hx : Relates env P x (pure ()) fun _ _ => R) (hf : ∀ a, Relates env R (f a) y Q) :
    Relates env P (x >>= f) y Q :=
  hx.bind (g := fun _ => y) fun a _ => hf a

end Relates

end Rule

end StaticTyping
