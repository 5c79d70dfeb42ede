import StaticTyping.Proofs.Mirror.Resolution

/-! Type parameters side by side. They may go by different names on the two sides, and within the
declaration they hide what these names stand for outside. -/

namespace StaticTyping

open List Rule Check StaticTyping.Action State ScopeStack SymbolTable

def State.withType (s : State) (name : String) (id : SymbolId) : State :=
  { s with scopes := { s.scopes with
      inner := { s.scopes.inner with types := (name, id) :: s.scopes.inner.types } } }

namespace Rule

variable {s : State} {name : String} {id other : SymbolId}

lemma run_declareType_new (visits : Visits) (span : Span)
    (h : s.scopes.inner.types.lookup name = none) :
    ((declareType name id span).toCheck visits).run s = ((), s.withType name id) := by
  have hstep : (Action.declareType name id).step s = (none, s.withType name id) := by
    simp only [Action.step, ScopeStack.declareType, h, withType]
  unfold declareType
  rw [toCheck_bind, run_bind, toCheck_perform, run_lift, hstep]
  rfl

lemma run_declareType_known (visits : Visits) (span : Span)
    (h : s.scopes.inner.types.lookup name = some other) :
    let finding := Finding.typeRedeclared name (s.symbols.get other).kind
    ((declareType name id span).toCheck visits).run s =
      ((), { s with diagnostics := s.diagnostics.push (finding.toDiagnostic span) }) := by
  have hstep : (Action.declareType name id).step s = (some other, s) := by
    simp only [step, ScopeStack.declareType, h]
  unfold declareType
  rw [toCheck_bind, run_bind, toCheck_perform, run_lift, hstep]
  rfl

end Rule

namespace Mirror

open Rule

/-- The names inside a declaration with type parameters `ps` on one side and `qs` on the other. -/
def enter (m : Mirror) (c : Names) (ps qs : List String) : Names := fun a b =>
  m.params a b ∧ a ∈ ps ∧ b ∈ qs ∨ c a b ∧ a ∉ ps ∧ b ∉ qs

/-- Type parameters that stand for each other, at the same places. -/
abbrev Parameters (m : Mirror) : List Ident → List Ident → Prop :=
  List.Forall₂ fun p q => m.params p.name q.name ∧ p.span = q.span ∧ m.kinds q.name .typeParam

variable {m : Mirror} {E : TypeExpr → TypeExpr → Prop} {c : Names} {cs : List Names} {v w : Visits}
  {ps qs : List String} {a b : String}

lemma Parameters.names {ps qs : List Ident} (h : m.Parameters ps qs) :
    Forall₂ m.params (ps.map (·.name)) (qs.map (·.name)) :=
  rel_map (fun _ _ h => h.1) h

lemma mem_iff_of_params (h : Forall₂ m.params ps qs) (hab : m.params a b) : a ∈ ps ↔ b ∈ qs := by
  constructor
  · intro ha
    obtain ⟨b', hb', hab'⟩ := forall₂_mem_left h ha
    rwa [m.params_unique.2 hab hab']
  · intro hb
    obtain ⟨a', ha', hab'⟩ := forall₂_mem_right h hb
    rwa [m.params_unique.1 hab hab']

lemma Context.enter (hc : m.Context c) (h : Forall₂ m.params ps qs) :
    m.Context (m.enter c ps qs) where
  unique := by
    constructor
    · rintro a a' b (⟨hab, -, hb⟩ | ⟨hab, -, hb⟩) (⟨hab', -, hb'⟩ | ⟨hab', -, hb'⟩)
      · exact m.params_unique.1 hab hab'
      · exact absurd hb hb'
      · exact absurd hb' hb
      · exact hc.unique.1 hab hab'
    · rintro a b b' (⟨hab, ha, -⟩ | ⟨hab, ha, -⟩) (⟨hab', ha', -⟩ | ⟨hab', ha', -⟩)
      · exact m.params_unique.2 hab hab'
      · exact absurd ha ha'
      · exact absurd ha' ha
      · exact hc.unique.2 hab hab'
  fixed {name} hname := by
    have hmem := mem_iff_of_params h (m.fixed_params hname)
    by_cases hin : name ∈ ps
    · exact .inl ⟨m.fixed_params hname, hin, hmem.mp hin⟩
    · exact .inr ⟨hc.fixed hname, hin, fun hq => hin (hmem.mpr hq)⟩
  exact hexact hab := by
    rcases hab with ⟨hab, -, -⟩ | ⟨hab, -, -⟩
    · exact m.exact_params hexact hab
    · exact hc.exact hexact hab

/-- The states while type parameters are being declared: those declared so far are all the types of the
innermost scope. -/
structure Entering (m : Mirror) (E : TypeExpr → TypeExpr → Prop) (c : Names) (cs : List Names)
    (ps qs : List String) (s t : State) : Prop where
  states : m.States E (m.enter c ps qs :: c :: cs) s t
  left (name : String) : s.scopes.inner.types.lookup name = none ↔ name ∉ ps
  right (name : String) : t.scopes.inner.types.lookup name = none ↔ name ∉ qs

lemma declareType_leads {P Q : State → State → Prop} {i j : SymbolId} (span : Span)
    (hexact : m.exact → a = b) (hnew : ∀ s t, P s t → s.scopes.inner.types.lookup a = none →
      t.scopes.inner.types.lookup b = none ∧ Q (s.withType a i) (t.withType b j))
    (hknown : ∀ s t k, P s t → s.scopes.inner.types.lookup a = some k →
      ∃ l, t.scopes.inner.types.lookup b = some l ∧
        (s.symbols.get k).kind = (t.symbols.get l).kind ∧
        ∀ ds es, Q { s with diagnostics := ds } { t with diagnostics := es }) :
    m.Leads v w P Q (declareType a i span) (declareType b j span) Both := by
  intro s t hst
  cases hs : s.scopes.inner.types.lookup a with
  | none =>
    obtain ⟨ht, hstates⟩ := hnew s t hst hs
    rw [run_declareType_new v span hs, run_declareType_new w span ht]
    exact ⟨trivial, hstates, .nothing rfl rfl rfl rfl⟩
  | some k =>
    obtain ⟨l, ht, hkind, hstates⟩ := hknown s t k hst hs
    rw [run_declareType_known v span hs, run_declareType_known w span ht, ← hkind]
    refine ⟨trivial, hstates _ _, Adds.push ?_ s t⟩
    exact m.output_report span rfl rfl fun h => by rw [hexact h]

lemma declareParam_leads (hpq : Forall₂ m.params ps qs) (hab : m.params a b)
    (hb : m.kinds b .typeParam) {i j : SymbolId} (hij : m.symbols i j) (span : Span) : m.Leads v w
      (fun s t => m.Entering E c cs ps qs s t ∧ i.index < s.symbols.size ∧
        (s.symbols.get i).kind = .typeParam)
      (m.Entering E c cs (ps ++ [a]) (qs ++ [b])) (declareType a i span)
      (declareType b j span) Both := by
  have hmem := mem_iff_of_params hpq hab
  refine declareType_leads span (fun h => m.exact_params h hab) ?_ ?_
  · rintro s t ⟨hst, hbound, hkind⟩ ha
    have hnotin := (hst.left a).mp ha
    have hnotin' : b ∉ qs := fun hb => hnotin (hmem.mpr hb)
    refine ⟨(hst.right b).mpr hnotin', ?_, fun name => ?_, fun name => ?_⟩
    · have hcontext : m.Context c := by
        cases hst.states.scopes with
        | inside _ _ _ hrest => exact hrest.context
      refine hst.states.withScopes (hst.states.scopes.declareType
        (hcontext.enter (rel_append hpq (.cons hab .nil)))
        ⟨hij, hbound, hkind ▸ hb, fun _ => hab, fun h => absurd hkind h⟩ fun x y hxy => ?_)
      simp only [enter, mem_append, mem_singleton, not_or] at hxy
      rcases hxy with ⟨hxy, hx | rfl, hy | rfl⟩ | ⟨hxy, ⟨hx, hne⟩, hy, hne'⟩
      · refine .inr ⟨?_, ?_, .inl ⟨hxy, hx, hy⟩⟩
        · rintro rfl
          exact hnotin hx
        · rintro rfl
          exact hnotin' hy
      · exact absurd ((m.params_unique.1 hxy hab) ▸ hx) hnotin
      · exact absurd ((m.params_unique.2 hxy hab) ▸ hy) hnotin'
      · exact .inl ⟨rfl, rfl⟩
      · exact .inr ⟨hne, hne', .inr ⟨hxy, hx, hy⟩⟩
    · have hleft := hst.left name
      simp only [withType, lookup_cons, mem_append, mem_singleton]
      split <;> simp_all
    · have hright := hst.right name
      simp only [withType, lookup_cons, mem_append, mem_singleton]
      split <;> simp_all
  · rintro s t k ⟨hst, -, -⟩ hk
    have hin : a ∈ ps := by
      by_contra hnotin
      rw [(hst.left a).mpr hnotin] at hk
      simp at hk
    have henter : m.enter c ps qs a b := .inl ⟨hab, hin, hmem.mp hin⟩
    have hinner := hst.states.scopes.innerType henter
    rw [hk] at hinner
    obtain ⟨l, hl, hkl⟩ := rel_some hinner
    have hagain {x z : String} {zs : List String} (hz : z ∈ zs) : x ∈ zs ++ [z] ↔ x ∈ zs := by
      simp only [mem_append, mem_singleton, or_iff_left_iff_imp]
      rintro rfl
      exact hz
    have hsame : m.enter c (ps ++ [a]) (qs ++ [b]) = m.enter c ps qs := by
      funext x y
      simp only [enter, hagain hin, hagain (hmem.mp hin)]
    refine ⟨l, hl, (hst.states.symbols hkl.paired).kind, fun ds es => ⟨?_, fun name => ?_, fun name => ?_⟩⟩
    · rw [hsame]
      exact hst.states.withOutput ds es _ _
    · rw [hagain hin]
      exact hst.left name
    · rw [hagain (hmem.mp hin)]
      exact hst.right name

def paramSymbol (param : Ident) : Symbol :=
  { name := param.name, kind := .typeParam, span := param.span, ty := some (.param param.name) }

lemma paramSymbol_mirrors {p q : Ident} (hpq : m.params p.name q.name) (hspan : p.span = q.span) :
    (paramSymbol p).Mirrors m E True (paramSymbol q) where
  kind := rfl
  name h := absurd rfl h
  exactName h := m.exact_params h hpq
  span := hspan
  ty := .some (.param hpq)
  params := .nil
  isMutable := rfl
  isConst := rfl
  isParameter := rfl
  typeParams := .nil
  members _ := .nil
  owner := .none
  payload := .nil
  variants _ := .nil
  target := .none

lemma declareTypeParams_leads {ps₀ qs₀ : List String} (hpq : Forall₂ m.params ps₀ qs₀)
    {ps qs : List Ident} (h : m.Parameters ps qs) : m.Leads v w (m.Entering E c cs ps₀ qs₀)
      (m.Entering E c cs (ps₀ ++ ps.map (·.name)) (qs₀ ++ qs.map (·.name)))
      (declareTypeParams ps) (declareTypeParams qs) Both := by
  induction h generalizing ps₀ qs₀ with
  | nil =>
    simp only [map_nil, append_nil]
    exact .pure trivial
  | @cons p q _ _ hab _ ih =>
    obtain ⟨hab, hspan, hkind⟩ := hab
    have hallocate : m.Leads v w (m.Entering E c cs ps₀ qs₀) (m.Entering E c cs ps₀ qs₀)
        (perform (.allocate (paramSymbol p))) (perform (.allocate (paramSymbol q))) m.symbols :=
      .perform fun s t hst => ⟨hst.states.next 0,
        ⟨hst.states.alloc (paramSymbol_mirrors hab hspan) (by simp [paramSymbol]), hst.left,
          hst.right⟩, .nothing rfl rfl rfl rfl⟩
    have hstep : m.Leads v w (m.Entering E c cs ps₀ qs₀)
        (m.Entering E c cs (ps₀ ++ [p.name]) (qs₀ ++ [q.name]))
        (perform (.allocate (paramSymbol p)) >>= fun id => declareType p.name id p.span)
        (perform (.allocate (paramSymbol q)) >>= fun id => declareType q.name id q.span) Both := by
      refine .bindWith (K := fun i s => i.index < s.symbols.size ∧
        (s.symbols.get i).kind = .typeParam) hallocate (fun s t _ => ⟨?_, ?_⟩) fun i j hij => ?_
      · exact Nat.lt_of_lt_of_eq (Nat.lt_succ_self _) (size_alloc _).symm
      · exact congrArg Symbol.kind (get_alloc_new _ _)
      · rw [hspan]
        exact declareParam_leads hpq hab hkind hij q.span
    rw [map_cons, map_cons, append_cons ps₀, append_cons qs₀]
    exact hstep.andThen fun _ _ => ih (rel_append hpq (.cons hab .nil))

lemma enter_nil (m : Mirror) (c : Names) : m.enter c [] [] = c := by
  funext a b
  simp [enter]

lemma inParams_leads {α β : Type} {V : α → β → Prop} {ps qs : List Ident}
    (h : m.Parameters ps qs) {K : State → Prop}
    (hK : ∀ s s', s.symbols.KeepsKinds s'.symbols → K s → K s') {x : Rule α} {y : Rule β}
    (hxy : m.Leads v w
      (fun s t => m.States E (m.enter c (ps.map (·.name)) (qs.map (·.name)) :: c :: cs) s t ∧ K s)
      (m.States E (m.enter c (ps.map (·.name)) (qs.map (·.name)) :: c :: cs)) x y V) :
    m.Leads v w (fun s t => m.States E (c :: cs) s t ∧ K s) (m.States E (c :: cs))
      (inScope (declareTypeParams ps >>= fun _ => x))
      (inScope (declareTypeParams qs >>= fun _ => y)) V := by
  have hpush : m.Leads v w (m.States E (c :: cs)) (m.Entering E c cs [] [])
      (perform .pushScope) (perform .pushScope) Both := by
    refine .perform fun s t hst => ⟨trivial, ⟨?_, fun _ => ?_, fun _ => ?_⟩,
      .nothing rfl rfl rfl rfl⟩
    · rw [enter_nil]
      exact hst.withScopes hst.scopes.push
    · simp [step, push]
    · simp [step, push]
  have hinside : m.Leads v w (fun s t => m.Entering E c cs [] [] s t ∧ K s)
      (m.States E (m.enter c (ps.map (·.name)) (qs.map (·.name)) :: c :: cs))
      (declareTypeParams ps >>= fun _ => x) (declareTypeParams qs >>= fun _ => y) V :=
    ((declareTypeParams_leads .nil h).keeping hK).andThen fun _ _ =>
      hxy.assume fun _ _ hst => ⟨hst.1.states, hst.2⟩
  refine .andThen (hpush.keeping hK) fun _ _ => hinside.bind fun _ _ hab => ?_
  exact .andThen pop_leads fun _ _ => .pure hab

lemma inParams_agrees {α β : Type} {V : α → β → Prop} {ps qs : List Ident}
    (h : m.Parameters ps qs) {x : Rule α} {y : Rule β} (hxy : m.Agrees v w
      (m.States E (m.enter c (ps.map (·.name)) (qs.map (·.name)) :: c :: cs)) x y V) :
    m.Rules v w E (c :: cs) (inScope (declareTypeParams ps >>= fun _ => x))
      (inScope (declareTypeParams qs >>= fun _ => y)) V :=
  (inParams_leads (K := fun _ => True) h (fun _ _ _ h => h) (hxy.assume fun _ _ hst => hst.1)).assume
    fun _ _ hst => ⟨hst, trivial⟩

end Mirror

end StaticTyping
