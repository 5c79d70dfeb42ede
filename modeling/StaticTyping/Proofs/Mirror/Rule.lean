import StaticTyping.Proofs.Mirror.State

/-! Rules side by side. Two rules lead from states that mirror each other to answers and states that do
again, and they put out the same on the way. -/

namespace StaticTyping

open Check List Option SymbolTable Diagnostics

variable {name : String} {j i : SymbolId} {α : Type}

lemma Action.keepsKinds (action : Action α) (s : State) :
    s.symbols.KeepsKinds (action.step s).2.symbols := by
  have hrefl : s.symbols.KeepsKinds s.symbols := fun _ h => ⟨h, rfl⟩
  cases action with
  | allocate symbol => exact s.symbols.keepsKinds_alloc symbol
  | setType | fillType | setMembers | setVariants | retypeMethod =>
    exact s.symbols.keepsKinds_modify _ fun _ => rfl
  | lookupValueType | declareValue | declareType =>
    simp only [Action.step]
    split <;> exact hrefl
  | _ => exact hrefl

lemma Check.run_keepsKinds (x : Check α) (s : State) :
    s.symbols.KeepsKinds (x.run s).2.symbols := by
  induction x generalizing s with
  | done => exact fun _ h => ⟨h, rfl⟩
  | ask action next ih => exact (action.keepsKinds s).trans (ih _ _)

variable {α : Type} {s : State} {P Q R : State → State → Prop} {v w : Visits}

namespace Rule

variable {visits : Visits}

lemma ends_fixes (x : Rule α) (h : s.symbols.Fixes i) : Ends visits x s fun _ t => t.symbols.Fixes i :=
  h.mono (run_keepsKinds _ s)

lemma allocate_fixes {symbol : Symbol} (h : symbol.kind ≠ .typeParam) :
    Ends visits (perform (.allocate symbol)) s fun made t => t.symbols.Fixes made := by
  have hfixes : (s.symbols.alloc symbol).2.Fixes ⟨s.symbols.size⟩ := by
    refine ⟨?_, ?_⟩
    · rw [size_alloc]
      exact Nat.lt_succ_self _
    · rwa [get_alloc_new]
  exact .perform _ hfixes

end Rule

inductive Role.Mirrors (m : Pairing) : Role → Role → Prop
  | value {a b : Option Ty} (h : Option.Rel (Ty.Mirrors m) a b) : Mirrors m (.value a) (.value b)
  | target : Mirrors m .target .target

namespace Mirror

open Rule

variable {β γ δ : Type} (m : Mirror)

/-- The same is added on both sides: diagnostics as the mirror says, and types for the same expressions
in the same order. -/
structure Adds (s t s' t' : State) : Prop where
  diagnostics : ∃ ds es, s'.diagnostics.entries.toList = s.diagnostics.entries.toList ++ ds ∧
    t'.diagnostics.entries.toList = t.diagnostics.entries.toList ++ es ∧ m.output ds es
  types : ∃ xs ys, s'.types.log = xs ++ s.types.log ∧ t'.types.log = ys ++ t.types.log ∧
    List.Forall₂ (fun x y => x.1 = y.1 ∧ x.2.Mirrors m y.2) xs ys

/-- From states as `P` says, both checks come to answers as `V` says and to states as `Q` says, and add
the same. -/
def Runs (P Q : State → State → Prop) (x : Check α) (y : Check β) (V : α → β → Prop) : Prop :=
  ∀ s t, P s t → V (x.run s).1 (y.run t).1 ∧ Q (x.run s).2 (y.run t).2 ∧
    m.Adds s t (x.run s).2 (y.run t).2

def Leads (v w : Visits) (P Q : State → State → Prop) (x : Rule α) (y : Rule β)
    (V : α → β → Prop) : Prop :=
  m.Runs P Q (x.toCheck v) (y.toCheck w) V

abbrev Agrees (v w : Visits) (R : State → State → Prop) (x : Rule α) (y : Rule β)
    (V : α → β → Prop) : Prop :=
  m.Leads v w R R x y V

abbrev Rules (v w : Visits) (E : TypeExpr → TypeExpr → Prop) (cs : List Names) (x : Rule α) (y : Rule β)
    (V : α → β → Prop) : Prop :=
  m.Agrees v w (m.States E cs) x y V

abbrev Both (_ : α) (_ : β) : Prop := True

variable {m} {t s' t' s'' t'' : State} {action' : Action β} {W : γ → δ → Prop} {f : α → Rule γ}
  {g : β → Rule δ}

namespace Adds

lemma nothing (hs : s'.diagnostics = s.diagnostics) (ht : t'.diagnostics = t.diagnostics)
    (hs' : s'.types = s.types) (ht' : t'.types = t.types) : m.Adds s t s' t' :=
  ⟨⟨[], [], by simp [hs], by simp [ht], m.output_nil⟩, ⟨[], [], by simp [hs'], by simp [ht'], .nil⟩⟩

lemma refl (s t : State) : m.Adds s t s t := nothing rfl rfl rfl rfl

lemma push {d e : Diagnostic} (h : m.output [d] [e]) (s t : State) :
    m.Adds s t { s with diagnostics := s.diagnostics.push d }
      { t with diagnostics := t.diagnostics.push e } :=
  ⟨⟨[d], [e], toList_push _ _, toList_push _ _, h⟩, ⟨[], [], rfl, rfl, .nil⟩⟩

lemma trans (h : m.Adds s t s' t') (h' : m.Adds s' t' s'' t'') : m.Adds s t s'' t'' := by
  obtain ⟨⟨ds, es, hds, hes, hout⟩, xs, ys, hxs, hys, hlog⟩ := h
  obtain ⟨⟨ds', es', hds', hes', hout'⟩, xs', ys', hxs', hys', hlog'⟩ := h'
  refine ⟨⟨ds ++ ds', es ++ es', ?_, ?_, m.output_append hout hout'⟩,
    xs' ++ xs, ys' ++ ys, ?_, ?_, rel_append hlog' hlog⟩
  · rw [hds', hds, append_assoc]
  · rw [hes', hes, append_assoc]
  · rw [hxs', hxs, append_assoc]
  · rw [hys', hys, append_assoc]

end Adds

namespace Runs

variable {x : Check α} {y : Check β} {V : α → β → Prop}

protected lemma bind {f : α → Check γ} {g : β → Check δ} (hxy : m.Runs P Q x y V)
    (hfg : ∀ a b, V a b → m.Runs Q R (f a) (g b) W) : m.Runs P R (x >>= f) (y >>= g) W := by
  intro s t hst
  obtain ⟨hanswers, hstates, hadds⟩ := hxy s t hst
  obtain ⟨hanswers', hstates', hadds'⟩ := hfg _ _ hanswers _ _ hstates
  rw [run_bind, run_bind]
  exact ⟨hanswers', hstates', hadds.trans hadds'⟩

lemma mono {W : α → β → Prop} (h : m.Runs P Q x y V) (hVW : ∀ a b, V a b → W a b) :
    m.Runs P Q x y W := fun s t hst =>
  have hrun := h s t hst
  ⟨hVW _ _ hrun.1, hrun.2⟩

end Runs

namespace Leads

variable {x : Rule α} {y : Rule β} {V : α → β → Prop}

protected lemma pure {a : α} {b : β} (h : V a b) : m.Agrees v w R (pure a) (pure b) V :=
  fun s t hst => ⟨h, hst, .refl s t⟩

protected lemma bind (hxy : m.Leads v w P Q x y V)
    (hfg : ∀ a b, V a b → m.Leads v w Q R (f a) (g b) W) :
    m.Leads v w P R (x >>= f) (y >>= g) W := by
  unfold Leads
  rw [toCheck_bind, toCheck_bind]
  exact Runs.bind hxy hfg

lemma mono {W : α → β → Prop} (h : m.Leads v w P Q x y V) (hVW : ∀ a b, V a b → W a b) :
    m.Leads v w P Q x y W := Runs.mono h hVW

lemma assume {P' : State → State → Prop} (h : m.Leads v w P Q x y V)
    (hP : ∀ s t, P' s t → P s t) : m.Leads v w P' Q x y V := fun s t hst => h s t (hP s t hst)

lemma andThen (hxy : m.Leads v w P Q x y V) (hfg : ∀ a b, m.Leads v w Q R (f a) (g b) W) :
    m.Leads v w P R (x >>= f) (y >>= g) W :=
  hxy.bind fun a b _ => hfg a b

lemma andPure {f : α → γ} {g : β → δ} (hxy : m.Leads v w P Q x y V)
    (hfg : ∀ a b, V a b → W (f a) (g b)) :
    m.Leads v w P Q (x >>= fun a => pure (f a)) (y >>= fun b => pure (g b)) W :=
  hxy.bind fun a b hab => .pure (hfg a b hab)

/-- What follows may use what is known of the first run on one side. -/
lemma bindWith {K : α → State → Prop} (hxy : m.Leads v w P Q x y V)
    (hK : ∀ s t, P s t → Rule.Ends v x s K)
    (hfg : ∀ a b, V a b → m.Leads v w (fun s t => Q s t ∧ K a s) R (f a) (g b) W) :
    m.Leads v w P R (x >>= f) (y >>= g) W := by
  intro s t hst
  obtain ⟨hanswers, hstates, hadds⟩ := hxy s t hst
  obtain ⟨hanswers', hstates', hadds'⟩ := hfg _ _ hanswers _ _ ⟨hstates, hK s t hst⟩
  rw [toCheck_bind, toCheck_bind, run_bind, run_bind]
  exact ⟨hanswers', hstates', hadds.trans hadds'⟩

lemma keeping {K : State → Prop} (hK : ∀ s s', s.symbols.KeepsKinds s'.symbols → K s → K s')
    (h : m.Leads v w P Q x y V) :
    m.Leads v w (fun s t => P s t ∧ K s) (fun s t => Q s t ∧ K s) x y V := by
  rintro s t ⟨hst, hs⟩
  obtain ⟨hanswers, hstates, hadds⟩ := h s t hst
  exact ⟨hanswers, ⟨hstates, hK _ _ (run_keepsKinds _ s) hs⟩, hadds⟩

lemma perform {action : Action α} (h : ∀ s t, P s t → V (action.step s).1 (action'.step t).1 ∧
      Q (action.step s).2 (action'.step t).2 ∧ m.Adds s t (action.step s).2 (action'.step t).2) :
    m.Leads v w P Q (perform action) (perform action') V := h

section Loops

variable {r : α → β → Prop} {xs : List α} {ys : List β} {V : γ → δ → Prop}

lemma forM {f : α → Rule Unit} {g : β → Rule Unit} (hxs : Forall₂ r xs ys)
    (h : ∀ a b, r a b → m.Agrees v w R (f a) (g b) Both) :
    m.Agrees v w R (xs.forM f) (ys.forM g) Both := by
  induction hxs with
  | nil => exact .pure trivial
  | cons hab _ ih => exact (h _ _ hab).andThen fun _ _ => ih

lemma mapM (hxs : Forall₂ r xs ys) (h : ∀ a b, r a b → m.Agrees v w R (f a) (g b) V) :
    m.Agrees v w R (xs.mapM f) (ys.mapM g) (Forall₂ V) := by
  induction hxs with
  | nil => exact .pure .nil
  | cons hab _ ih =>
    rw [mapM_cons, mapM_cons]
    exact (h _ _ hab).bind fun _ _ hcd => ih.andPure fun _ _ hrest => .cons hcd hrest

lemma foldlM {f : γ → α → Rule γ} {g : δ → β → Rule δ}
    (hxs : Forall₂ r xs ys) (h : ∀ c d a b, V c d → r a b → m.Agrees v w R (f c a) (g d b) V)
    {c : γ} {d : δ} (hcd : V c d) : m.Agrees v w R (xs.foldlM f c) (ys.foldlM g d) V := by
  induction hxs generalizing c d with
  | nil => exact .pure hcd
  | cons hab _ ih =>
    exact (h _ _ _ _ hcd hab).bind fun _ _ hcd => ih hcd

end Loops

end Leads

lemma pairedSelf (xs : List α) : Forall₂ (fun a b => a = b ∧ a ∈ xs) xs xs :=
  forall₂_same.mpr fun _ hx => ⟨rfl, hx⟩

section Rules

variable {E : TypeExpr → TypeExpr → Prop} {c : Names} {cs : List Names} {V : α → β → Prop}

lemma read_agrees {action : Action α} (hs : ∀ s, (action.step s).2 = s)
    (ht : ∀ t, (action'.step t).2 = t) (h : ∀ s t, R s t → V (action.step s).1 (action'.step t).1) :
    m.Agrees v w R (perform action) (perform action') V := by
  refine .perform fun s t hst => ?_
  rw [hs, ht]
  exact ⟨h s t hst, hst, .refl s t⟩

lemma symbol_agrees (hij : m.symbols i j) :
    m.Rules v w E cs (symbol i) (symbol j) (Symbol.Mirrors m E (m.full i)) :=
  read_agrees (fun _ => rfl) (fun _ => rfl) fun _ _ hst => hst.symbols hij

/-- The relation between states, with a symbol that is known to be no type parameter. -/
abbrev Fixing (m : Mirror) (E : TypeExpr → TypeExpr → Prop) (cs : List Names) (i : SymbolId)
    (s t : State) : Prop :=
  m.States E cs s t ∧ s.symbols.Fixes i

lemma Leads.fixing {x : Rule α} {y : Rule β} (h : m.Leads v w P Q x y V) (i : SymbolId) :
    m.Leads v w (fun s t => P s t ∧ s.symbols.Fixes i) (fun s t => Q s t ∧ s.symbols.Fixes i) x y V :=
  h.keeping (K := fun s => s.symbols.Fixes i) fun _ _ hkeep hi => hi.mono hkeep

lemma lookupValue_agrees (hname : m.values name) :
    m.Rules v w E cs (lookupValue name) (lookupValue name) (Rel m.symbols) :=
  read_agrees (fun _ => rfl) (fun _ => rfl) fun _ _ hst => hst.lookupValue hname

lemma lookupValueType_agrees (hname : m.values name) :
    m.Rules v w E cs (perform (.lookupValueType name))
      (perform (.lookupValueType name)) (Rel (Ty.Mirrors m)) := by
  have hkeep : ∀ s : State, ((Action.lookupValueType name).step s).2 = s := by
    intro s
    simp only [Action.step]
    split <;> rfl
  exact read_agrees hkeep hkeep fun _ _ hst => hst.lookupValueType hname

lemma lookupType_agrees {a b : String} (hab : c a b) {none' : Rule α} {none'' : Rule β}
    {some' : SymbolId → Symbol → Rule α} {some'' : SymbolId → Symbol → Rule β}
    (hnone : m.Rules v w E (c :: cs) none' none'' V)
    (hsome : ∀ i j x y, m.symbols i j → x.Mirrors m E (m.full i) y →
      (x.kind = .typeParam → m.params a b) → (x.kind ≠ .typeParam → a = b) →
      m.Rules v w E (c :: cs) (some' i x) (some'' j y) V) :
    m.Rules v w E (c :: cs) (lookupType a >>= fun found => match found with
        | none => none'
        | some i => symbol i >>= some' i)
      (lookupType b >>= fun found => match found with
        | none => none''
        | some j => symbol j >>= some'' j) V := by
  intro s t hst
  have hlookup : ∀ (u : State) (name : String) (visits : Visits),
      run ((lookupType name).toCheck visits) u = (u.scopes.lookupType name, u) :=
    fun _ _ _ => rfl
  rw [toCheck_bind, toCheck_bind, run_bind, run_bind, hlookup, hlookup]
  refine rel_elim (hst.lookupType hab) (hnone s t hst) fun i j hbinds => ?_
  exact hsome i j _ _ hbinds.paired (hst.symbols hbinds.paired) hbinds.param hbinds.other s t hst

lemma record_agrees (id : ExprId) {x y : Ty} (hxy : x.Mirrors m y) :
    m.Rules v w E cs (record id x) (record id y) Both := by
  refine .perform fun s t hst => ⟨trivial, hst.withOutput _ _ _ _, ?_⟩
  refine ⟨⟨[], [], by simp [Action.step], by simp [Action.step], m.output_nil⟩, ?_⟩
  exact ⟨[(id, x)], [(id, y)], rfl, rfl, .cons ⟨rfl, hxy⟩ .nil⟩

lemma push_agrees {d e : Diagnostic} (h : m.output [d] [e]) :
    m.Rules v w E cs (perform (.report d)) (perform (.report e)) Both :=
  Leads.perform fun s t hst => ⟨trivial, hst.withOutput _ _ _ _, .push h s t⟩

lemma report_agrees {f g : Finding} (span : Span) (hcode : f.code = g.code)
    (hordinary : f.isOrdinary) (hmessage : m.exact → f.message = g.message) :
    m.Rules v w E cs (report f span) (report g span) Both :=
  push_agrees (m.output_report span hcode hordinary hmessage)

lemma reportIf_agrees {p q : Bool} {f g : Finding} (span : Span) (hpq : p = q)
    (hcode : f.code = g.code) (hordinary : f.isOrdinary)
    (hmessage : m.exact → f.message = g.message) :
    m.Rules v w E cs (reportIf p f span) (reportIf q g span) Both := by
  unfold reportIf
  rw [hpq]
  split
  · exact report_agrees span hcode hordinary hmessage
  · exact .pure trivial

lemma reports_agrees {p q : Bool} {f g : Finding} (span : Span)
    (h : m.output (if p then [f.toDiagnostic span] else []) (if q then [g.toDiagnostic span] else [])) :
    m.Rules v w E cs (reportIf p f span) (reportIf q g span) Both := by
  have hrun : ∀ (r : Bool) (k : Finding) (visits : Visits) (u : State),
      (run ((reportIf r k span).toCheck visits) u).2.diagnostics.entries.toList =
        u.diagnostics.entries.toList ++ (if r then [k.toDiagnostic span] else []) ∧
      ∃ ds, (run ((reportIf r k span).toCheck visits) u).2 = { u with diagnostics := ds } := by
    intro r k visits u
    cases r with
    | false => exact ⟨(append_nil _).symm, _, rfl⟩
    | true => exact ⟨toList_push _ _, _, rfl⟩
  intro s t hst
  obtain ⟨hs, ds, hs'⟩ := hrun p f v s
  obtain ⟨ht, es, ht'⟩ := hrun q g w t
  refine ⟨trivial, ?_, ⟨_, _, hs, ht, h⟩, [], [], ?_, ?_, .nil⟩
  · rw [hs', ht']
    exact hst.withOutput _ _ _ _
  · rw [hs']
    rfl
  · rw [ht']
    rfl

lemma reportSame_agrees {f : Finding} (span : Span) (hordinary : f.isOrdinary) :
    m.Rules v w E cs (report f span) (report f span) Both :=
  report_agrees span rfl hordinary fun _ => rfl

lemma Text.same {x y : Ty} (hm : m.exact) (hxy : x.Mirrors m y) : x.text = y.text :=
  hxy.text_eq (fun _ _ => m.exact_params hm) (m.exact_strict hm)

lemma allocate_agrees {x y : Symbol} (hxy : x.Mirrors m E True y) (howner : x.owner = none) :
    m.Rules v w E cs (perform (.allocate x)) (perform (.allocate y)) m.symbols :=
  Leads.perform fun _ _ hst =>
    ⟨hst.next 0, hst.alloc hxy (by simp [howner]), .nothing rfl rfl rfl rfl⟩

lemma pop_leads {c' : Names} :
    m.Leads v w (m.States E (c' :: c :: cs)) (m.States E (c :: cs)) (perform .popScope)
      (perform .popScope) Both := by
  refine .perform fun s t hst => ⟨trivial, hst.withScopes ?_, .nothing rfl rfl rfl rfl⟩
  have hscopes := hst.scopes
  generalize s.scopes = x at hscopes ⊢
  generalize t.scopes = y at hscopes ⊢
  obtain ⟨f, fs⟩ := x
  obtain ⟨g, gs⟩ := y
  cases hscopes with
  | inside _ _ _ hrest =>
    cases fs with
    | nil => cases hrest
    | cons =>
      cases gs with
      | nil => cases hrest
      | cons => exact hrest

lemma inScope_agrees {x : Rule α} {y : Rule β} (h : m.Rules v w E (c :: c :: cs) x y V) :
    m.Rules v w E (c :: cs) (inScope x) (inScope y) V :=
  have hpush : m.Leads v w (m.States E (c :: cs)) (m.States E (c :: c :: cs)) (perform .pushScope)
      (perform .pushScope) Both :=
    .perform fun _ _ hst => ⟨trivial, hst.withScopes hst.scopes.push, .nothing rfl rfl rfl rfl⟩
  hpush.andThen fun _ _ => h.bind fun _ _ hab => pop_leads.andThen fun _ _ => .pure hab

lemma narrow_agrees (name : String) {x y : Ty} (hxy : x.Mirrors m y) :
    m.Rules v w E cs (perform (.narrow name x)) (perform (.narrow name y)) Both := by
  refine .perform fun s t hst => ⟨trivial, hst.withScopes ?_, .nothing rfl rfl rfl rfl⟩
  exact hst.scopes.inner (fun _ _ h => h.narrow name hxy) rfl

lemma clearNarrowing_agrees (name : String) : m.Rules v w E cs (perform (.clearNarrowing name))
      (perform (.clearNarrowing name)) Both := by
  refine .perform fun s t hst => ⟨trivial, hst.withScopes ?_, .nothing rfl rfl rfl rfl⟩
  exact hst.scopes.clearFrames name

/-- Values that are not compared may be declared in inner scopes only. -/
lemma declareValue_agrees (hname : m.values name ∨ 1 < cs.length) (hij : m.symbols i j) (span : Span) :
    m.Rules v w E cs (declareValue name i span) (declareValue name j span) Both := by
  have hdeclare : m.Rules v w E cs (perform (.declareValue name i))
      (perform (.declareValue name j)) (Rel m.symbols) := by
    refine Leads.perform fun s t hst => ?_
    simp only [Action.step, ScopeStack.declareValue]
    refine rel_elim (hst.scopes.innerValue hname) ?_ fun k l hkl => ⟨.some hkl, hst, .refl s t⟩
    refine ⟨.none, hst.withScopes ?_, .nothing rfl rfl rfl rfl⟩
    exact hst.scopes.inner (fun _ _ h => h.declareValue name hij) rfl
  refine hdeclare.bind fun found found' hfound => ?_
  cases hfound with
  | none => exact .pure trivial
  | some hkl =>
    refine (symbol_agrees hkl).bind fun x y hxy => ?_
    rw [hxy.kind]
    exact reportSame_agrees span rfl

lemma introduce_agrees {x y : Symbol} (hxy : x.Mirrors m E True y) (howner : x.owner = none)
    (hname : x.name = y.name) (hvalue : m.values x.name ∨ 1 < cs.length) :
    m.Rules v w E cs (introduce x) (introduce y) Both := by
  refine (allocate_agrees hxy howner).bind fun i j hij => ?_
  rw [← hname, ← hxy.span]
  exact declareValue_agrees hvalue hij x.span

lemma modify_agrees {action action' : Action Unit} {x y : Symbol → Symbol}
    (hs : ∀ s, (action.step s).2 = s.modifySymbol i x)
    (ht : ∀ t, (action'.step t).2 = t.modifySymbol j y) (hij : m.symbols i j)
    (hkind : ∀ symbol, (x symbol).kind = symbol.kind)
    (howner : ∀ symbol, (x symbol).owner = symbol.owner)
    (hxy : ∀ a b, a.Mirrors m E (m.full i) b → (x a).Mirrors m E (m.full i) (y b)) :
    m.Rules v w E cs (perform action) (perform action') Both := by
  refine .perform fun s t hst => ?_
  rw [hs, ht]
  exact ⟨trivial, hst.modify hij hkind howner hxy, .nothing rfl rfl rfl rfl⟩

variable (hij : m.symbols i j)

include hij

lemma setType_agrees {x y : Ty} (hxy : x.Mirrors m y) :
    m.Rules v w E cs (perform (.setType i x)) (perform (.setType j y)) Both := by
  refine modify_agrees (fun _ => rfl) (fun _ => rfl) hij (fun _ => rfl) (fun _ => rfl) fun a b hab => ?_
  exact { hab with ty := .some hxy
                   target := rel_imp hab.target fun _ _ h => ⟨h.1, fun h => by simp at h⟩ }

lemma fillType_agrees {x y : Ty} (hxy : x.Mirrors m y) :
    m.Rules v w E cs (perform (.fillType i x)) (perform (.fillType j y)) Both := by
  refine modify_agrees (fun _ => rfl) (fun _ => rfl) hij (fun _ => rfl) (fun _ => rfl) fun a b hab => ?_
  exact { hab with ty := .some (rel_getD hab.ty hxy)
                   target := rel_imp hab.target fun _ _ h => ⟨h.1, fun h => by simp at h⟩ }

lemma retypeFirst_mirrors {x y : Ty} (hxy : x.Mirrors m y) {xs ys : List Member}
    (hxs : Forall₂ (Member.Mirrors m) xs ys) :
    Forall₂ (Member.Mirrors m) (retypeFirst i x xs) (retypeFirst j y ys) := by
  induction hxs with
  | nil => exact .nil
  | @cons a b _ _ hab hrest ih =>
    simp only [retypeFirst, rel_eq_some_iff m.symbols_unique hab.method hij]
    split
    · exact .cons { hab with ty := hxy } hrest
    · exact .cons hab ih

omit hij

lemma declaredSymbol_agrees {id : StmtId} (hid : m.declared id) :
    m.Rules v w E cs (perform (.declaredSymbol id))
      (perform (.declaredSymbol id)) (Rel m.symbols) :=
  read_agrees (fun _ => rfl) (fun _ => rfl) fun _ _ hst => hst.declarations hid

lemma noteDeclaration_leads (id : StmtId) (hij : m.symbols i j) :
    m.Leads v w (m.Fixing E cs i) (m.States E cs) (perform (.noteDeclaration id i))
      (perform (.noteDeclaration id j)) Both := by
  refine .perform ?_
  rintro s t ⟨hst, hi⟩
  refine ⟨trivial, { hst with noted := ?_, declarations := ?_, known := ?_ }, .nothing rfl rfl rfl rfl⟩
  · intro other k hk
    simp only [Action.step, lookup_cons] at hk
    split at hk
    · exact some.inj hk ▸ hi
    · exact hst.noted hk
  · intro other hother
    simp only [Action.step, lookup_cons]
    split
    · exact .some hij
    · exact hst.declarations hother
  · intro other hother
    simp only [Action.step, lookup_cons]
    split
    · rfl
    · exact hst.known hother

lemma enterFunction_agrees {x y : Option Ty} (hxy : Rel (Ty.Mirrors m) x y) :
    m.Rules v w E cs (perform (.enterFunction x)) (perform (.enterFunction y)) Both :=
  Leads.perform fun _ _ hst => ⟨trivial, { hst with contexts := .cons ⟨hxy, .nil⟩ hst.contexts },
    .nothing rfl rfl rfl rfl⟩

lemma leaveFunction_agrees : m.Rules v w E cs (perform .leaveFunction) (perform .leaveFunction)
      (Forall₂ (Ty.Mirrors m)) := by
  refine .perform fun s t hst => ⟨?_, { hst with contexts := ?_ }, .nothing rfl rfl rfl rfl⟩
  · simp only [Action.step]
    exact hst.contexts.casesOn .nil fun h _ => h.returns
  · simp only [Action.step]
    exact hst.contexts.casesOn .nil fun _ h => h

lemma currentFunction_agrees :
    m.Rules v w E cs (perform .currentFunction) (perform .currentFunction)
      (Rel (FunctionContext.Mirrors m)) := by
  refine read_agrees (fun _ => rfl) (fun _ => rfl) fun s t hst => ?_
  simp only [Action.step]
  exact hst.contexts.casesOn .none fun h _ => .some h

lemma noteReturn_agrees {x y : Ty} (hxy : x.Mirrors m y) :
    m.Rules v w E cs (perform (.noteReturn x)) (perform (.noteReturn y)) Both := by
  refine .perform fun s t hst =>
    ⟨trivial, { hst with contexts := ?_ }, .nothing rfl rfl rfl rfl⟩
  simp only [Action.step]
  exact hst.contexts.casesOn .nil fun h hrest =>
    .cons ⟨h.declared, rel_append h.returns (.cons hxy .nil)⟩ hrest

end Rules

end Mirror

end StaticTyping
