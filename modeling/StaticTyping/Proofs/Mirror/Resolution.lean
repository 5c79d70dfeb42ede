import StaticTyping.Proofs.Mirror.Rule

/-! Written types side by side. Type expressions that mean the same, name by name, resolve to types that
mirror each other, and so do aliases whose targets are such type expressions. -/

namespace StaticTyping

open TypeExpr Check Rule Steps Primitive

/-- The same members, in the same order unless that may differ. -/
def Mirror.Exchanges (m : Mirror) (ts us : List TypeExpr) : Prop :=
  ts = us ∨ m.loose ∧ Rearranged (Exchangeable m.kinds) ts us

/-- The type expressions have the same shape and spans, and their names stand for each other. Built-in
names are the same on both sides. Members of unions may change places if the mirror allows it. -/
inductive TypeExpr.Mirrors (m : Mirror) (c : Names) : TypeExpr → TypeExpr → Prop
  | builtIn {span : Span} {name : String} {xs ys : List TypeExpr} (hname : isBuiltIn name = true)
      (hargs : List.Forall₂ (Mirrors m c) xs ys) : Mirrors m c (.named span name xs) (.named span name ys)
  | declared {span : Span} {a b : String} {xs ys : List TypeExpr} (ha : isBuiltIn a = false)
      (hb : isBuiltIn b = false) (hab : c a b) (hargs : List.Forall₂ (Mirrors m c) xs ys) :
      Mirrors m c (.named span a xs) (.named span b ys)
  | union {span : Span} {xs ys zs : List TypeExpr} (h : List.Forall₂ (Mirrors m c) xs ys)
      (hr : m.Exchanges ys zs) : Mirrors m c (.union span xs) (.union span zs)
  | tuple {span : Span} {xs ys : List TypeExpr} (h : List.Forall₂ (Mirrors m c) xs ys) :
      Mirrors m c (.tuple span xs) (.tuple span ys)
  | fn {span : Span} {ps qs : List TypeExpr} {r t : TypeExpr}
      (hparams : List.Forall₂ (Mirrors m c) ps qs) (hresult : Mirrors m c r t) :
      Mirrors m c (.fn span ps r) (.fn span qs t)
  | hole (span : Span) : Mirrors m c (.hole span) (.hole span)

mutual

theorem TypeExpr.Mirrors.of_names {m : Mirror} {c : Names} : ∀ (t : TypeExpr),
    (∀ name ∈ t.names, isBuiltIn name ∨ c name name) → t.Mirrors m c t
  | .named span name args, h => by
    have hargs : List.Forall₂ (Mirrors m c) args args :=
      of_namesAll args fun other hother => h other (List.mem_cons_of_mem _ hother)
    cases hname : isBuiltIn name with
    | true => exact .builtIn hname hargs
    | false => exact .declared hname hname ((h name (.head _)).resolve_left (by simp [hname])) hargs
  | .union _ members, h => .union (of_namesAll members h) (.inl rfl)
  | .tuple _ elements, h => .tuple (of_namesAll elements h)
  | .fn _ params result, h =>
    .fn (of_namesAll params fun name hname => h name (List.mem_append_left _ hname))
      (of_names result fun name hname => h name (List.mem_append_right _ hname))
  | .hole span, _ => .hole span

theorem TypeExpr.Mirrors.of_namesAll {m : Mirror} {c : Names} : ∀ (ts : List TypeExpr),
    (∀ name ∈ namesAll ts, isBuiltIn name ∨ c name name) → List.Forall₂ (Mirrors m c) ts ts
  | [], _ => .nil
  | t :: rest, h =>
    .cons (of_names t fun name hname => h name (List.mem_append_left _ hname))
      (of_namesAll rest fun name hname => h name (List.mem_append_right _ hname))

end

section Depth

variable {α : Type} {names : List String} {depth : Nat} {s : State}

/-- How aliases are expanded makes no difference to a rule as long as it is the same for the aliases
that the rule may ask for. -/
lemma Rule.run_expanding_congr {v w : Visits}
    (h : ∀ active id span cyclic s, Expanding names depth active → s.AliasNames names →
      (v.expand active id span cyclic).run s = (w.expand active id span cyclic).run s ∧
        ((v.expand active id span cyclic).run s).2.AliasNames names)
    {x : Rule α} (hx : x.Meets (expanding names depth) () fun _ _ => True)
    (hs : s.AliasNames names) : (x.toCheck v).run s = (x.toCheck w).run s := by
  induction x generalizing s with
  | done a => rfl
  | ask request next ih =>
    obtain ⟨hrequest, hnext⟩ := hx
    have hstep : ∀ visits : Visits, (toCheck visits (.ask request next)).run s =
        (toCheck visits (next ((visits.answer request).run s).1)).run
          ((visits.answer request).run s).2 := fun visits => run_bind _ _ s
    rw [hstep, hstep]
    cases request with
    | act action =>
      refine ih _ (hnext _ () ?_) (hs.step hrequest)
      cases action with
      | readSymbol id => exact hs.get id
      | _ => trivial
    | expand active id span cyclic =>
      obtain ⟨heq, hnames⟩ := h active id span cyclic s hrequest hs
      simp only [Visits.answer, heq] at hnames ⊢
      exact ih _ (hnext _ () trivial) hnames
    | expr role id => exact hrequest.elim
    | stmt id => exact hrequest.elim

namespace Check

lemma expandWithin_succ {active : List String} (h : Expanding names depth active) (id : SymbolId)
    (span : Span) (cyclic : Cyclic) (hs : s.AliasNames names) :
    (expandWithin (depth + 1) active id span cyclic).run s =
      (expandWithin depth active id span cyclic).run s := by
  induction depth generalizing active id span cyclic s with
  | zero => exact h.depth_pos.elim
  | succ depth ih =>
    refine run_expanding_congr (fun active id span cyclic s hactive hs => ⟨?_, ?_⟩)
      (expandAlias_meets h id span cyclic) hs
    · exact ih hactive id span cyclic hs
    · rw [ih hactive id span cyclic hs]
      exact (meets_performing_iff.mp (expandWithin_resolves hactive id span cyclic hs)).2

lemma expand_eq_expandWithin (id : SymbolId) (span : Span) (cyclic : Cyclic) (s : State)
    (hdepth : s.symbols.size < depth) :
    (expand [] id span cyclic).run s = (expandWithin depth [] id span cyclic).run s := by
  obtain ⟨names, hnames, hexpanding⟩ := s.exists_expanding
  obtain ⟨k, rfl⟩ := Nat.exists_eq_add_of_le hdepth
  induction k with
  | zero => rfl
  | succ k ih =>
    have hdeeper := expandWithin_succ (hexpanding k) id span cyclic hnames
    exact (ih (by omega)).trans hdeeper.symm

end Check

end Depth

namespace Mirror

open Rule

abbrev Resolved (m : Mirror) (x y : Ty × Cyclic) : Prop := x.1.Mirrors m y.1 ∧ x.2 = y.2

/-- Aliases are expanded alike while those in the list are being expanded. -/
structure Expands (m : Mirror) (v w : Visits) (R : State → State → Prop) (active : List String) :
    Prop where
  alike {i j : SymbolId} (span : Span) (cyclic : Cyclic) : m.symbols i j →
    m.Runs R R (v.expand active i span cyclic) (w.expand active j span cyclic) m.Resolved
  calm : w.Calm active

variable {m : Mirror} {v w : Visits} {E : TypeExpr → TypeExpr → Prop} {c : Names} {cs : List Names}
  {active : List String} {name : String}

lemma checkArity_agrees {a b : String} (hab : m.exact → a = b) (expected : Nat) {n n' : Nat}
    (hn : n = n') (span : Span) : m.Rules v w E cs (checkArity a expected n span)
      (checkArity b expected n' span) Both := by
  subst hn
  exact reportIf_agrees span rfl rfl rfl fun h => by rw [hab h]

lemma expand_agrees (hexpand : m.Expands v w (m.States E cs) active) {i j : SymbolId}
    (hij : m.symbols i j) (span : Span) (cyclic : Cyclic) :
    m.Rules v w E cs (lift (.expand active i span cyclic))
      (lift (.expand active j span cyclic)) m.Resolved := by
  have hlift : ∀ (visits : Visits) (id : SymbolId),
      toCheck visits (.lift (.expand active id span cyclic)) =
        visits.expand active id span cyclic := fun _ _ => bind_done _
  unfold Rules Agrees Leads
  rw [hlift, hlift]
  exact hexpand.alike span cyclic hij

lemma declaredType_agrees (hc : m.Context c) (hexpand : m.Expands v w (m.States E (c :: cs)) active)
    {a b : String} (hab : c a b) {xs ys : List Ty}
    (hargs : List.Forall₂ (Ty.Mirrors m) xs ys) (span : Span) (cyclic : Cyclic) :
    m.Rules v w E (c :: cs) (declaredType active a xs span cyclic)
      (declaredType active b ys span cyclic) m.Resolved := by
  have hsame : m.exact → a = b := fun h => hc.exact h hab
  refine lookupType_agrees hab ?_ fun i j x y hij hxy hparam hother => ?_
  · refine .andThen (report_agrees span rfl rfl fun h => by rw [hsame h]) fun _ _ => ?_
    exact .pure ⟨.error, rfl⟩
  · have hlength := hargs.length_eq
    have hhead : x.kind ≠ .typeParam → m.Resolved
        (.named ⟨a, some i, x.kind == .classType⟩ (if xs.isEmpty then none else some xs), cyclic)
        (.named ⟨b, some j, x.kind == .classType⟩ (if ys.isEmpty then none else some ys), cyclic) := by
      intro hkind
      obtain rfl := hother hkind
      rw [forall₂_isEmpty hargs]
      refine ⟨?_, rfl⟩
      split
      · exact .bare (.some hij)
      · exact .named (.some hij) hargs
    have hparams := hxy.typeParams.length_eq
    rw [← hxy.kind]
    cases hkind : x.kind with
    | typeParam =>
      exact (checkArity_agrees hsame 0 hlength span).andThen fun _ _ =>
        .pure ⟨.param (hparam hkind), rfl⟩
    | structType | enumType | classType =>
      rw [hparams]
      refine (checkArity_agrees hsame _ hlength span).andThen fun _ _ => .pure ?_
      rw [hkind] at hhead
      exact hhead (by simp)
    | typeAlias =>
      exact (checkArity_agrees hsame 0 hlength span).andThen fun _ _ =>
        expand_agrees hexpand hij span cyclic
    | value | function | variant =>
      refine .andThen (report_agrees span rfl rfl fun h => by rw [hsame h]) fun _ _ => ?_
      exact .pure ⟨.error, rfl⟩

lemma builtIn_agrees (hname : isBuiltIn name) {xs ys : List Ty}
    (hargs : List.Forall₂ (Ty.Mirrors m) xs ys) (span : Span) (cyclic : Cyclic) :
    m.Rules v w E cs (namedType active name xs span cyclic)
      (namedType active name ys span cyclic) m.Resolved := by
  have hlength := hargs.length_eq
  have harg : ∀ n : Nat, ((xs[n]?).getD .unknown).Mirrors m ((ys[n]?).getD .unknown) :=
    fun n => rel_getD (forall₂_getElem? hargs n) .unknown
  unfold namedType
  cases hprim : ofName? name with
  | some p =>
    refine .andThen (checkArity_agrees (fun _ => rfl) 0 hlength span) fun _ _ => ?_
    exact .pure ⟨.prim p, rfl⟩
  | none =>
    by_cases harray : name = Ty.arrayName
    · rw [if_pos harray, if_pos harray]
      refine .andThen (checkArity_agrees (fun _ => rfl) 1 hlength span) fun _ _ => ?_
      exact .pure ⟨(harg 0).array, rfl⟩
    · rw [if_neg harray, if_neg harray]
      by_cases hmap : name = Ty.mapName
      · rw [if_pos hmap, if_pos hmap]
        refine .andThen (checkArity_agrees (fun _ => rfl) 2 hlength span) fun _ _ => ?_
        exact .pure ⟨(harg 0).map (harg 1), rfl⟩
      · simp [isBuiltIn, builtInType?, hprim, harray, hmap] at hname

lemma namedType_eq_declaredType (hname : isBuiltIn name = false) (args : List Ty)
    (span : Span) (cyclic : Cyclic) : namedType active name args span cyclic =
      declaredType active name args span cyclic := by
  have hnone : builtInType? name args = none := builtInType?_eq_none_iff.mpr hname
  unfold builtInType? at hnone
  unfold namedType
  cases hprim : ofName? name with
  | some p => simp [hprim] at hnone
  | none =>
    simp only [hprim] at hnone ⊢
    by_cases harray : name = Ty.arrayName
    · simp [harray] at hnone
    · by_cases hmap : name = Ty.mapName
      · rw [if_neg harray, if_pos hmap] at hnone
        simp at hnone
      · rw [if_neg harray, if_neg hmap]

lemma exchanged_agrees (hexpand : m.Expands v w (m.States E (c :: cs)) active)
    {ts us vs : List TypeExpr} {cyclic : Cyclic}
    (h : m.Rules v w E (c :: cs) (resolveAllIn active ts cyclic) (resolveAllIn active us cyclic)
      fun x y => List.Forall₂ (Ty.Mirrors m) x.1 y.1 ∧ x.2 = y.2) (hr : m.Exchanges us vs) :
    m.Rules v w E (c :: cs) (resolveAllIn active ts cyclic) (resolveAllIn active vs cyclic)
      fun x y => Ty.Matched m x.1 y.1 ∧ x.2 = y.2 := by
  rcases hr with rfl | ⟨hm, hr⟩
  · exact h.mono fun _ _ h => ⟨.of_forall₂ h.1, h.2⟩
  · intro s t hst
    obtain ⟨hanswers, hstates, ⟨ds, es, hds, hes, hout⟩, hlog⟩ := h s t hst
    obtain ⟨htypes, hcyclic, hpermuted⟩ :=
      resolvedAll_rearranged hexpand.calm hr cyclic (hst.namesWithin hm)
    have hsilent : Rule.Silent True active (resolveAllIn active vs cyclic) :=
      (resolveAllIn_does vs cyclic).silent
    obtain ⟨es', hes'⟩ := (hsilent.appendsIn hexpand.calm.appends).diagnostics t
    refine ⟨⟨⟨_, hanswers.1, .inr ⟨hm, htypes⟩⟩, hanswers.2.trans hcyclic⟩, ?_, ⟨ds, es', hds, hes', ?_⟩, ?_⟩
    · rw [hpermuted.rest]
      exact hstates.withOutput _ _ _ _
    · refine m.output_perm hm hout ((List.perm_append_left_iff t.diagnostics.entries.toList).mp ?_)
      rw [← hes, ← hes']
      exact hpermuted.diagnostics
    · rw [← hpermuted.types]
      exact hlog

mutual

theorem resolveIn_agrees (hc : m.Context c) (hexpand : m.Expands v w (m.States E (c :: cs)) active) :
    ∀ {t u : TypeExpr}, t.Mirrors m c u → ∀ cyclic,
      m.Rules v w E (c :: cs) (resolveIn active t cyclic) (resolveIn active u cyclic) m.Resolved
  | .named span a xs, u, htu, cyclic => by
    have hargs : ∀ {ys : List TypeExpr}, List.Forall₂ (Mirrors m c) xs ys → _ :=
      fun h => resolveAllIn_agrees hc hexpand h cyclic
    cases htu with
    | builtIn hname h =>
      refine .bind (hargs h) ?_
      rintro ⟨types, cyclic⟩ ⟨types', _⟩ ⟨htypes, rfl⟩
      exact builtIn_agrees hname htypes span cyclic
    | declared ha hb hab h =>
      refine .bind (hargs h) ?_
      rintro ⟨types, cyclic⟩ ⟨types', _⟩ ⟨htypes, rfl⟩
      dsimp only
      rw [namedType_eq_declaredType ha, namedType_eq_declaredType hb]
      exact declaredType_agrees hc hexpand hab htypes span cyclic
  | .union span xs, u, htu, cyclic => by
    cases htu with
    | union h hr =>
      exact .andPure (exchanged_agrees hexpand (resolveAllIn_agrees hc hexpand h cyclic) hr)
        fun x y hxy => ⟨.makeUnion_of_matched hxy.1, hxy.2⟩
  | .tuple span xs, u, htu, cyclic => by
    cases htu with
    | tuple h =>
      exact .andPure (resolveAllIn_agrees hc hexpand h cyclic) fun x y hxy =>
        ⟨.tuple hxy.1, hxy.2⟩
  | .fn span ps r, u, htu, cyclic => by
    cases htu with
    | fn hparams hresult =>
      refine .bind (resolveAllIn_agrees hc hexpand hparams cyclic) ?_
      rintro ⟨types, cyclic⟩ ⟨types', _⟩ ⟨htypes, rfl⟩
      exact .andPure (resolveIn_agrees hc hexpand hresult cyclic) fun r t hrt =>
        ⟨.fn htypes hrt.1, hrt.2⟩
  | .hole span, u, htu, cyclic => by
    cases htu
    exact .andThen (reportSame_agrees span rfl) fun _ _ => .pure ⟨.error, rfl⟩

theorem resolveAllIn_agrees (hc : m.Context c)
    (hexpand : m.Expands v w (m.States E (c :: cs)) active) :
    ∀ {ts us : List TypeExpr}, List.Forall₂ (Mirrors m c) ts us → ∀ cyclic,
      m.Rules v w E (c :: cs) (resolveAllIn active ts cyclic) (resolveAllIn active us cyclic)
        fun x y => List.Forall₂ (Ty.Mirrors m) x.1 y.1 ∧ x.2 = y.2
  | [], us, htu, cyclic => by
    cases htu
    exact .pure ⟨.nil, rfl⟩
  | t :: ts, us, htu, cyclic => by
    cases htu with
    | cons htu hrest =>
      refine .bind (resolveIn_agrees hc hexpand htu cyclic) ?_
      rintro ⟨ty, cyclic⟩ ⟨ty', _⟩ ⟨hty, rfl⟩
      exact .andPure (resolveAllIn_agrees hc hexpand hrest cyclic) fun r t hrt =>
        ⟨.cons hty hrt.1, hrt.2⟩

end

/-- The targets of aliases that wait for their types mean the same in the scope. -/
def Heeds (m : Mirror) (E : TypeExpr → TypeExpr → Prop) (c : Names) : Prop :=
  ∀ t u, E t u → m.waiting ∧ t.Mirrors m c u

lemma expandAlias_agrees (hc : m.Context c) (hE : m.Heeds E c)
    (hexpand : ∀ active, m.Expands v w (m.States E (c :: cs)) active) {i j : SymbolId}
    (hij : m.symbols i j) (span : Span) (cyclic : Cyclic) :
    m.Rules v w E (c :: cs) (expandAlias active i span cyclic)
      (expandAlias active j span cyclic) m.Resolved := by
  refine .bind (symbol_agrees hij) fun x y hxy => ?_
  rcases rel_cases hxy.ty with ⟨hx, hy⟩ | ⟨a, b, hx, hy, hab⟩
  · rcases rel_cases hxy.target with ⟨htx, hty⟩ | ⟨t, u, htx, hty, hname, htarget⟩
    · rw [hx, hy, htx, hty]
      exact .pure ⟨.error, rfl⟩
    · rw [hx, hy, htx, hty, ← hname]
      obtain ⟨hwaiting, htu⟩ := hE t u (htarget hx)
      dsimp only
      split
      · refine .andThen (push_agrees (m.output_cycle _ span hwaiting)) fun _ _ => ?_
        exact .pure ⟨.error, rfl⟩
      · refine .bind (resolveIn_agrees hc (hexpand _) htu cyclic) ?_
        rintro ⟨ty, cyclic⟩ ⟨ty', _⟩ ⟨hty, rfl⟩
        split
        · exact .andThen (fillType_agrees hij .error) fun _ _ => .pure ⟨.error, rfl⟩
        · exact .andThen (fillType_agrees hij hty) fun _ _ => .pure ⟨hty, rfl⟩
  · rw [hx, hy]
    exact .pure ⟨hab, rfl⟩

lemma expandWithin_runs (hc : m.Context c) (hE : m.Heeds E c) (depth : Nat) (active : List String)
    (i j : SymbolId) (span : Span) (cyclic : Cyclic) (hij : m.symbols i j) :
    m.Runs (m.States E (c :: cs)) (m.States E (c :: cs))
      (expandWithin depth active i span cyclic) (expandWithin depth active j span cyclic)
      m.Resolved := by
  induction depth generalizing active i j span cyclic with
  | zero => exact fun s t hst => ⟨⟨.error, rfl⟩, hst, .refl s t⟩
  | succ depth ih =>
    refine expandAlias_agrees hc hE (fun active => ⟨?_, expandWithin_appends depth active,
      expandWithin_refines depth active⟩) hij span cyclic
    exact fun span cyclic hij => ih active _ _ span cyclic hij

lemma expand_runs (hc : m.Context c) (hE : m.Heeds E c) {i j : SymbolId} (hij : m.symbols i j)
    (span : Span) (cyclic : Cyclic) :
    m.Runs (m.States E (c :: cs)) (m.States E (c :: cs)) (expand [] i span cyclic)
      (expand [] j span cyclic) m.Resolved := by
  intro s t hst
  have hdepth : s.symbols.size < s.symbols.size + t.symbols.size + 1 := by omega
  have hdepth' : t.symbols.size < s.symbols.size + t.symbols.size + 1 := by omega
  rw [expand_eq_expandWithin i span cyclic s hdepth, expand_eq_expandWithin j span cyclic t hdepth']
  exact expandWithin_runs hc hE _ [] i j span cyclic hij s t hst

/-- Targets that are the same on both sides and name nothing that may be called otherwise. -/
def Steady (m : Mirror) (t u : TypeExpr) : Prop :=
  m.waiting ∧ t = u ∧ ∀ name ∈ t.names, isBuiltIn name = true ∨ m.fixed name

lemma steady_heeds (hc : m.Context c) : m.Heeds m.Steady c := by
  rintro t _ ⟨hwaiting, rfl, hnames⟩
  exact ⟨hwaiting, .of_names t fun name hname => (hnames name hname).imp_right hc.fixed⟩

section Types

variable (hc : m.Context c) (hexpand : m.Expands v w (m.States E (c :: cs)) [])

include hc hexpand

lemma resolveType_agrees {t u : TypeExpr} (htu : t.Mirrors m c u) :
    m.Rules v w E (c :: cs) (resolveType t) (resolveType u) (Ty.Mirrors m) :=
  .andPure (resolveIn_agrees hc hexpand htu []) fun _ _ h => h.1

lemma resolveOptional_agrees {t u : Option TypeExpr} (htu : Option.Rel (Mirrors m c) t u) :
    m.Rules v w E (c :: cs) (resolveOptional t) (resolveOptional u)
      (Option.Rel (Ty.Mirrors m)) := by
  cases htu with
  | none => exact .pure .none
  | some htu => exact .andPure (resolveType_agrees hc hexpand htu) fun _ _ h => .some h

omit hc in
lemma expandDeclared_agrees {i j : SymbolId} (hij : m.symbols i j) :
    m.Rules v w E (c :: cs) (expandDeclared i) (expandDeclared j) Both := by
  refine .bind (symbol_agrees hij) fun x y hxy => ?_
  rw [← hxy.span]
  exact .andPure (expand_agrees hexpand hij x.span []) fun _ _ _ => trivial

end Types

end Mirror

end StaticTyping
