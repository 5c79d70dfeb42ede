import StaticTyping.Proofs.Aliases.Waiting

/-! Whether a cycle of aliases is reported while declarations are registered. A report means that there
is a cycle: the aliases that are being expanded lead to each other by name. If none is reported, the
aliases that have types refer to such aliases only, and lie on no cycle. -/

namespace StaticTyping

open Relation State Diagnostics Rule List Option Check ScopeStack

/-- Aliases are found under their own names only, and a cycle that is reported is there. -/
structure Traced (p : Program) (b s : State) : Prop where
  names {name : String} {id : SymbolId} : s.Binds name id → (s.symbols.get id).kind = .typeAlias →
    (b.symbols.get id).name = name
  reported : 0 < s.diagnostics.count .aliasCycle → ∃ name, TransGen p.AliasRefers name name

variable {p : Program} {pairs : List (StmtId × SymbolId)} {M : (SymbolId → Prop) → String → Prop}
  {b s t : State} {O : SymbolId → Prop} {id : SymbolId} {env : Env} {depth : Nat}
  {finding : Finding}

namespace Traced

lemma start (hb : AllNamed p pairs b) : Traced p b b where
  names {name id} hbinds _ := by
    obtain ⟨frame, hframe, hfound⟩ := hbinds
    unfold frames at hframe
    rw [hb.root] at hframe
    obtain rfl := mem_singleton.mp hframe
    rw [← lookupType_root hb.root] at hfound
    exact (hb.only hfound).choose_spec.2
  reported h := by simp [hb.calm] at h

lemma undisturbed {N : String → Prop} (h : Traced p b s) (hst : Undisturbed N s t) :
    Traced p b t where
  names {name id} hbinds hkind := by
    rcases hst.binds hbinds with hbinds | hparam
    · by_cases hid : id.index < s.symbols.size
      · exact h.names hbinds ((hst.grows.kind hid).symm.trans hkind)
      · exact absurd hkind (hst.grows.plain hid).1
    · simp [hparam] at hkind
  reported := by
    rw [hst.diagnostics]
    exact h.reported

lemma reporting (h : Traced p b s) (hcode : finding.code ≠ .aliasCycle)
    (span : Span) : Traced p b (s.reporting finding span) where
  names := h.names
  reported hcount := h.reported (by rwa [State.reporting, count_push_of_ne _ hcode] at hcount)

lemma refines (h : Traced p b s) (hst : s.Refines t)
    (hreported : 0 < t.diagnostics.count .aliasCycle → ∃ name, TransGen p.AliasRefers name name) :
    Traced p b t where
  names hbinds hkind := by
    unfold Binds at hbinds
    rw [hst.scopes] at hbinds
    exact h.names hbinds ((hst.kind _).symm.trans hkind)
  reported := hreported

lemma aliasRefers (h : Traced p b s) (hb : AllNamed p pairs b) (hwaiting : Waiting M b O s)
    {target : TypeExpr} (htarget : (b.symbols.get id).aliasTarget = some target) {other : SymbolId}
    (hother : s.AliasAmong target.names other) :
    p.AliasRefers (b.symbols.get id).name (b.symbols.get other).name := by
  obtain ⟨name, hname, hbuiltIn, hlookup, hkind⟩ := hother
  obtain rfl := h.names (binds_of_lookupType hlookup) hkind
  obtain ⟨target', htarget'⟩ := isSome_iff_exists.mp (hwaiting.isSome_of_kind hb hkind)
  exact ⟨target, target', hb.aliases_of_target htarget, hb.aliases_of_target htarget', hname, hbuiltIn⟩

end Traced

def Traces (p : Program) (b : State) (u w : Progress) : Prop :=
  u.2.Refines w.2 ∧ (Traced p b u.2 → Traced p b w.2)

lemma traces_course (p : Program) (b : State) : Course (Traces p b) fun _ _ _ => True where
  refl w := ⟨.refl w.2, fun h => h⟩
  trans huv hvw := ⟨huv.1.trans hvw.1, fun h => hvw.2 (huv.2 h)⟩
  report _ _ hcode span := ⟨.of_symbols rfl rfl, fun h => h.reporting hcode span⟩
  scopes h := h.1.scopes
  kind h := h.1.kind
  found _ h := h

section Sound

/-- The aliases that are being expanded lead to the one that is expanded next. -/
lemma Check.expandWithin_traced (hb : AllNamed p pairs b) {names active : List String}
    (h : Expanding names depth active) (span : Span) (cyclic : Cyclic)
    (hnames : s.AliasNames names) (hwaiting : Waiting M b O s) (hs : Traced p b s)
    (halias : (b.symbols.get id).aliasTarget.isSome)
    (htrail : ∀ name ∈ active, TransGen p.AliasRefers name (b.symbols.get id).name) :
    Traced p b ((expandWithin depth active id span cyclic).run s).2 := by
  induction depth generalizing active id span cyclic s with
  | zero => exact h.depth_pos.elim
  | succ depth ih =>
    obtain ⟨target, htarget⟩ := isSome_iff_exists.mp halias
    have hname := hwaiting.since.grows.name (lt_of_aliasTarget halias)
    have hread := hwaiting.target_eq htarget
    have hends : Ends { expand := expandWithin depth } (expandAlias active id span cyclic) s
        fun _ => Traced p b := by
      refine expandAlias_ends hread (fun _ _ => hs) ?_ ?_
      · intro _ hactive
        rw [hname] at hactive
        exact hs.refines (.of_symbols rfl rfl) fun _ => ⟨_, htrail _ hactive⟩
      · intro _ hidle
        rw [hname] at hidle ⊢
        have hexpanding := h.cons hidle (hname ▸ hnames.get id (by simp [hread]))
        have hexpand : Expands { expand := expandWithin depth } ((b.symbols.get id).name :: active)
            (Traces p b) (fun _ _ _ => True) (cyclic, s) target.names := by
          rintro ⟨cyclic, t⟩ other span hw hother
          have hstep := hs.aliasRefers hb hwaiting htarget hother
          have hnext := hnames.refines hw.1
          obtain ⟨_, _, _, _, hkind⟩ := hother
          refine ⟨⟨expandWithin_refines _ _ other span cyclic _, fun ht => ?_⟩, trivial⟩
          refine ih hexpanding span cyclic hnext (hwaiting.refines hw.1) ht
            (hwaiting.isSome_of_kind hb hkind) fun name hactive => ?_
          rcases mem_cons.mp hactive with rfl | hactive
          · exact .single hstep
          · exact (htrail name hactive).tail hstep
        have hcourse := traces_course p b
        refine (resolveIn_denotes hcourse target hexpand (hcourse.refl _)).mono ?_
        rintro r t ⟨htraces, -⟩
        have ht := htraces.2 hs
        exact ht.refines (.fillType t id _) ht.reported
    exact hends

lemma traced_kept (hb : AllNamed p pairs b) : KeptWaiting M b (fun _ => True) (Traced p b) where
  none := trivial
  undisturbed _ hst h := h.undisturbed hst
  report span hcode h := h.reporting hcode span
  expand {_ s id} span cyclic hwaiting h _ halias := by
    obtain ⟨names, hnames, hexpanding⟩ := s.exists_expanding
    exact ⟨expandWithin_traced hb (hexpanding 0) span cyclic hnames hwaiting h halias
      fun name hactive => absurd hactive not_mem_nil, trivial⟩

end Sound

/-- As long as no cycle is reported, the aliases that have types refer to such aliases only, and lie on
no cycle. -/
def Cleared (b s : State) : Prop :=
  s.diagnostics.count .aliasCycle = 0 → ∀ id, (b.symbols.get id).aliasTarget.isSome → ¬s.Open id →
    ¬TransGen b.Refers id id ∧ ∀ other, b.Refers id other → ¬s.Open other

namespace Cleared

variable {other : SymbolId}

lemma start (hb : AllNamed p pairs b) : Cleared b b :=
  fun _ _ halias hknown => absurd (hb.open_alias halias) hknown

lemma undisturbed (hb : b.ProperAliases) (h : Cleared b s)
    (hwaiting : Waiting M b O s) (hst : Undisturbed (M O) s t) : Cleared b t := by
  have hopen {id : SymbolId} (halias : (b.symbols.get id).aliasTarget.isSome) :
      t.Open id ↔ s.Open id := by simp only [Open, hwaiting.types_eq hst halias]
  intro hcalm id halias hknown
  rw [hst.diagnostics] at hcalm
  obtain ⟨hcycle, hclosed⟩ := h hcalm id halias (by rwa [← hopen halias])
  refine ⟨hcycle, fun other hrefers => ?_⟩
  rw [hopen (hb.isSome_right hrefers)]
  exact hclosed other hrefers

lemma reporting (h : Cleared b s) (hcode : finding.code ≠ .aliasCycle)
    (span : Span) : Cleared b (s.reporting finding span) :=
  fun hcalm => h (by rwa [State.reporting, count_push_of_ne _ hcode] at hcalm)

lemma known_of_path (hb : b.ProperAliases) (h : Cleared b s)
    (hcalm : s.diagnostics.count .aliasCycle = 0) (halias : (b.symbols.get id).aliasTarget.isSome)
    (hknown : ¬s.Open id) (hpath : ReflTransGen b.Refers id other) : ¬s.Open other := by
  induction hpath using ReflTransGen.head_induction_on with
  | refl => exact hknown
  | head hstep _ ih => exact ih (hb.isSome_right hstep) ((h hcalm _ halias hknown).2 _ hstep)

lemma fillType (hb : b.ProperAliases) (h : Cleared b s)
    (hclosed : s.diagnostics.count .aliasCycle = 0 → ∀ other, b.Refers id other → ¬s.Open other)
    (ty : Ty) : Cleared b ((Action.fillType id ty).step s).2 := by
  have hrefines := Refines.fillType s id ty
  intro hcalm v halias hknown
  have hafter : s.diagnostics.count .aliasCycle = 0 := hcalm
  by_cases hbefore : s.Open v
  · obtain rfl : v = id := by
      by_contra hne
      exact hknown ((fillType_other s hne ty).trans hbefore)
    refine ⟨fun hcycle => ?_, fun other hrefers hopen =>
      hclosed hafter other hrefers (hrefines.open_of_open hopen)⟩
    obtain ⟨other, hstep, hpath⟩ := TransGen.head'_iff.mp hcycle
    exact h.known_of_path hb hafter (hb.isSome_right hstep) (hclosed hafter other hstep) hpath hbefore
  · obtain ⟨hcycle, hothers⟩ := h hafter v halias hbefore
    exact ⟨hcycle, fun other hrefers hopen => hothers other hrefers (hrefines.open_of_open hopen)⟩

end Cleared

/-- Types are found, reports stay, and if none of them is about a cycle there is none so far. -/
structure Clears (b : State) (u w : Progress) : Prop where
  refines : u.2.Refines w.2
  reports : u.2.diagnostics.count .aliasCycle ≤ w.2.diagnostics.count .aliasCycle
  clears : Cleared b u.2 → Cleared b w.2

def KnownOrReported (id : SymbolId) (s : State) : Prop :=
  s.diagnostics.count .aliasCycle = 0 → ¬s.Open id

lemma KnownOrReported.mono {u w : Progress} (hclears : Clears b u w)
    (h : KnownOrReported id u.2) : KnownOrReported id w.2 := by
  intro hcalm hopen
  have hreports := hclears.reports
  exact h (by omega) (hclears.refines.open_of_open hopen)

lemma clears_course (b : State) : Course (Clears b) fun id _ w => KnownOrReported id w.2 where
  refl w := ⟨.refl w.2, le_rfl, fun h => h⟩
  trans huv hvw := ⟨huv.refines.trans hvw.refines, huv.reports.trans hvw.reports,
    fun h => hvw.clears (huv.clears h)⟩
  report _ _ hcode span := ⟨.of_symbols rfl rfl, (count_push_of_ne _ hcode).ge,
    fun h => h.reporting hcode span⟩
  scopes h := h.refines.scopes
  kind h := h.refines.kind
  found h := .mono h

section Complete

lemma Diagnostics.count_push_self (ds : Diagnostics) (d : Diagnostic) :
    (ds.push d).count d.code = ds.count d.code + 1 := by
  simp [count, push]

/-- An alias that is met while it is being expanded is reported. Any other has its type in the end, and
before it gets it, all that it refers to have theirs. -/
lemma Check.expandWithin_clears (hb : AllNamed p pairs b) {names active : List String}
    (h : Expanding names depth active) (span : Span) {w : Progress}
    (hnames : w.2.AliasNames names) (hwaiting : Waiting b.MentionedBy b O w.2)
    (halias : (b.symbols.get id).aliasTarget.isSome) :
    Clears b w (((expandWithin depth active id span w.1).run w.2).1.2,
        ((expandWithin depth active id span w.1).run w.2).2) ∧
      KnownOrReported id ((expandWithin depth active id span w.1).run w.2).2 := by
  induction depth generalizing active id span w with
  | zero => exact h.depth_pos.elim
  | succ depth ih =>
    obtain ⟨target, htarget⟩ := isSome_iff_exists.mp halias
    have hread := hwaiting.target_eq htarget
    have hcourse := clears_course b
    have hends : Ends { expand := expandWithin depth } (expandAlias active id span w.1) w.2
        fun r t => Clears b w (r.2, t) ∧ KnownOrReported id t := by
      refine expandAlias_ends hread ?_ ?_ ?_
      · intro ty hty
        exact ⟨hcourse.refl w, fun _ => by simp [Open, hty]⟩
      · intro _ _
        have hcount : (w.2.reporting (.aliasCycle (w.2.symbols.get id).name) span).diagnostics.count
            .aliasCycle = w.2.diagnostics.count .aliasCycle + 1 :=
          count_push_self w.2.diagnostics
            ((Finding.aliasCycle (w.2.symbols.get id).name).toDiagnostic span)
        have hreported {P : Prop} (hcalm : (w.2.reporting (.aliasCycle (w.2.symbols.get id).name)
            span).diagnostics.count .aliasCycle = 0) : P := by
          rw [hcount] at hcalm
          exact absurd hcalm (Nat.succ_ne_zero _)
        exact ⟨⟨.of_symbols rfl rfl, hcount ▸ Nat.le_succ _, fun _ => hreported⟩, hreported⟩
      · intro hopen hidle
        have hmentioned := hwaiting.mentioned htarget hopen
        have hexpanding := h.cons hidle (hnames.get id (by simp [hread]))
        have hexpand : Expands { expand := expandWithin depth } ((w.2.symbols.get id).name :: active)
            (Clears b) (fun id _ w => KnownOrReported id w.2) w target.names := by
          intro v other span hv hother
          have hrefers : b.Refers id other :=
            ⟨target, htarget, (hwaiting.since.aliasAmong hmentioned other).mp hother⟩
          exact ih hexpanding span (hnames.refines hv.refines) (hwaiting.refines hv.refines)
            (hb.properAliases.isSome_right hrefers)
        refine (resolveIn_denotes hcourse target hexpand (hcourse.refl w)).mono ?_
        rintro r t ⟨hclears, hdenotes⟩
        have hclosed (hcalm : t.diagnostics.count .aliasCycle = 0) (other : SymbolId)
            (hrefers : b.Refers id other) : ¬t.Open other := by
          obtain ⟨_, htarget', hother⟩ := hrefers
          obtain rfl := some.inj (htarget.symm.trans htarget')
          have hamong := (hwaiting.since.aliasAmong hmentioned other).mpr hother
          exact (hdenotes.knows other hamong).elim fun _ hfound => hfound hcalm
        have hfill := Refines.fillType t id (expandedType (w.2.symbols.get id).name r)
        refine ⟨⟨hclears.refines.trans hfill, hclears.reports, fun hw => ?_⟩, fun _ hstill => ?_⟩
        · exact (hclears.clears hw).fillType hb.properAliases hclosed _
        · have hsome : (t.symbols.get id).aliasTarget.isSome := by
            rw [hclears.refines.aliasTarget, hread]
            rfl
          have hfilled := fillType_isSome hsome (expandedType (w.2.symbols.get id).name r)
          unfold Open at hstill
          simp [hstill] at hfilled
    exact hends

lemma cleared_kept (hb : AllNamed p pairs b) :
    KeptWaiting b.MentionedBy b (fun _ => True) (Cleared b) where
  none := trivial
  undisturbed hwaiting hst h := h.undisturbed hb.properAliases hwaiting hst
  report span hcode h := h.reporting hcode span
  expand {_ s id} span cyclic hwaiting h _ halias := by
    obtain ⟨names, hnames, hexpanding⟩ := s.exists_expanding
    exact ⟨(expandWithin_clears hb (hexpanding 0) span (w := (cyclic, s)) hnames hwaiting
      halias).1.clears h, trivial⟩

lemma registerParts_cleared (hb : AllNamed env.program pairs b)
    (huncaptured : env.program.Uncaptured) :
    Ends (visits env) (registerParts env.program pairs) b fun _ t =>
      t.diagnostics.count .aliasCycle = 0 → ∀ id, ¬TransGen b.Refers id id := by
  refine (registerParts_uncaptured hb (cleared_kept hb) huncaptured (.start hb)).mono ?_
  rintro _ t ⟨hwaiting, ht⟩ hcalm id hcycle
  obtain ⟨_, hstep, -⟩ := TransGen.head'_iff.mp hcycle
  exact (ht hcalm id hstep.isSome_left (hwaiting.waiting hstep.isSome_left)).1 hcycle

end Complete

end StaticTyping
