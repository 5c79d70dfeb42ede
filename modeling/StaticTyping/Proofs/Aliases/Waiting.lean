import StaticTyping.Proofs.Aliases.Scoped

/-! Aliases that wait for their types while the parts of declarations are registered. If no type
parameter takes a name that a later alias mentions, each alias gets its type where the names in its
target mean what they mean at the root. -/

namespace StaticTyping

open Rule Check List

namespace Program

def aliasTarget? (p : Program) (id : StmtId) : Option TypeExpr :=
  (p.stmt id).kind.typeSymbol?.bind (·.aliasTarget)

/-- No type parameter in a type declaration has a name that the target of a later alias mentions. -/
def Uncaptured (p : Program) : Prop :=
  p.items.Pairwise fun id later =>
    ∀ target ∈ p.aliasTarget? later, ∀ param ∈ p.scopedParams id, param.name ∉ target.names

lemma scopedParams_of_aliasTarget? {p : Program} {id : StmtId} {target : TypeExpr}
    (h : p.aliasTarget? id = some target) : p.scopedParams id = [] := by
  unfold aliasTarget? at h
  unfold scopedParams
  cases hkind : (p.stmt id).kind with
  | record kind decl | enum decl => simp [hkind, StmtKind.typeSymbol?] at h
  | _ => rfl

instance (p : Program) : Decidable p.Uncaptured := inferInstanceAs (Decidable (List.Pairwise _ _))

end Program

def State.MentionedBy (b : State) (O : SymbolId → Prop) (name : String) : Prop :=
  ∃ id target, O id ∧ (b.symbols.get id).aliasTarget = some target ∧ name ∈ target.names

/-- Which names matter while some aliases wait for their types: fewer if fewer wait, and none in the
end. -/
structure Mattering (M : (SymbolId → Prop) → String → Prop) : Prop where
  mono {O O' : SymbolId → Prop} : (∀ id, O' id → O id) → ∀ name, M O' name → M O name
  none (name : String) : ¬M (fun _ => False) name

lemma State.mentionedBy_mattering (b : State) : Mattering b.MentionedBy where
  mono hsub := fun _ ⟨id, target, hid, hmention⟩ => ⟨id, target, hsub id hid, hmention⟩
  none _ := fun ⟨_, _, hnone, _⟩ => hnone

lemma mattering_none : Mattering fun _ _ => False := ⟨fun _ _ h => h, fun _ h => h⟩

/-- The aliases without a type are among those in `O`, and the names that matter then have kept their
meaning. -/
structure Waiting (M : (SymbolId → Prop) → String → Prop) (b : State) (O : SymbolId → Prop) (s : State) :
    Prop where
  since : Since (M O) b s
  waiting {id : SymbolId} : (b.symbols.get id).aliasTarget.isSome → s.Open id → O id

variable {pairs : List (StmtId × SymbolId)} {M : (SymbolId → Prop) → String → Prop} {b s : State}
  {O : SymbolId → Prop}

namespace Waiting

variable {p : Program} {t : State} {id : SymbolId} {target : TypeExpr}

lemma start (hb : AllNamed p pairs b) : Waiting M b (fun id => ∃ stmt, (stmt, id) ∈ pairs) b where
  since := .start hb.root
  waiting halias _ := hb.aliases (.inr halias)

section

variable (h : Waiting M b O s)

include h

lemma restrict {O' : SymbolId → Prop} (hM : Mattering M) (hsub : ∀ id, O' id → O id)
    (hwaiting : ∀ id, (b.symbols.get id).aliasTarget.isSome → s.Open id → O' id) :
    Waiting M b O' s where
  since := h.since.mono (hM.mono hsub)
  waiting {id} halias hopen := hwaiting id halias hopen

lemma refines (hst : s.Refines t) : Waiting M b O t where
  since := h.since.refines hst
  waiting halias hopen := h.waiting halias (hst.open_of_open hopen)

lemma reporting (finding : Finding) (span : Span) : Waiting M b O (s.reporting finding span) :=
  h.refines (.of_symbols rfl rfl)

lemma types_eq (hst : Undisturbed (M O) s t) (halias : (b.symbols.get id).aliasTarget.isSome) :
    (t.symbols.get id).ty = (s.symbols.get id).ty :=
  hst.types ((State.lt_of_aliasTarget halias).trans_le h.since.grows.size)

lemma undisturbed (hst : Undisturbed (M O) s t) : Waiting M b O t where
  since := ⟨hst.sees h.since.sees, h.since.grows.trans hst.grows⟩
  waiting halias hopen := h.waiting halias ((h.types_eq hst halias).symm.trans hopen)

lemma target_eq (htarget : (b.symbols.get id).aliasTarget = some target) :
    (s.symbols.get id).aliasTarget = some target := by
  have halias : (b.symbols.get id).aliasTarget.isSome := by simp [htarget]
  exact (h.since.grows.target (State.lt_of_aliasTarget halias)).trans htarget

lemma isSome_of_kind (hb : AllNamed p pairs b)
    (hkind : (s.symbols.get id).kind = .typeAlias) : (b.symbols.get id).aliasTarget.isSome :=
  (hb.kind_alias_iff id).mp ((h.since.kind_alias_iff id).mp hkind)

end

lemma mentioned (h : Waiting b.MentionedBy b O s)
    (htarget : (b.symbols.get id).aliasTarget = some target) (hopen : s.Open id) :
    ∀ name ∈ target.names, b.MentionedBy O name :=
  fun _ hname => ⟨id, target, h.waiting (by simp [htarget]) hopen, htarget, hname⟩

end Waiting

/-- What is kept while aliases wait for their types. Resolving a type starts with no name marked as
cyclic, and as long as `C` holds of the marked ones, each expansion keeps it. -/
structure KeptWaiting (M : (SymbolId → Prop) → String → Prop) (b : State) (C : Cyclic → Prop)
    (J : State → Prop) : Prop where
  none : C []
  undisturbed {O : SymbolId → Prop} {s t : State} : Waiting M b O s → Undisturbed (M O) s t → J s → J t
  report {s : State} {finding : Finding} (span : Span) : finding.code ≠ .aliasCycle → J s →
    J (s.reporting finding span)
  expand {O : SymbolId → Prop} {s : State} {id : SymbolId} (span : Span) {cyclic : Cyclic} :
    Waiting M b O s → J s → C cyclic → (b.symbols.get id).aliasTarget.isSome →
    J ((expand [] id span cyclic).run s).2 ∧ C ((expand [] id span cyclic).run s).1.2

variable {pair : StmtId × SymbolId}

section Registration

variable {env : Env} {C : Cyclic → Prop} {J : State → Prop}

variable (hb : AllNamed env.program pairs b)

include hb

lemma resolveType_waiting (hJ : KeptWaiting M b C J)
    (t : TypeExpr) (hwaiting : Waiting M b O s) (hs : J s) :
    Ends (visits env) (resolveType t) s fun _ u => Waiting M b O u ∧ J u := by
  let Later (u w : Progress) : Prop := u.2.Refines w.2 ∧
    (Waiting M b O u.2 ∧ J u.2 ∧ C u.1 → J w.2 ∧ C w.1)
  have hcourse : Course Later fun _ _ _ => True := {
    refl := fun w => ⟨.refl w.2, fun h => h.2⟩
    trans := fun huv hvw =>
      ⟨huv.1.trans hvw.1, fun h => hvw.2 ⟨h.1.refines huv.1, huv.2 h⟩⟩
    report := fun _ _ hcode span =>
      ⟨.of_symbols rfl rfl, fun h => ⟨hJ.report span hcode h.2.1, h.2.2⟩⟩
    scopes := fun h => h.1.scopes
    kind := fun h => h.1.kind
    found := fun _ h => h }
  have hexpand : Expands (visits env) [] Later (fun _ _ _ => True) ([], s) t.names := by
    rintro w id span - ⟨_, _, _, _, hkind⟩
    refine ⟨⟨expand_refines id span w.1 w.2, fun ⟨hw, hJw, hC⟩ => ?_⟩, trivial⟩
    exact hJ.expand span hw hJw hC (hwaiting.isSome_of_kind hb hkind)
  refine (resolveIn_denotes hcourse t hexpand (hcourse.refl _)).bind ?_
  rintro r u ⟨⟨hrefines, hkept⟩, -⟩
  exact .pure ⟨hwaiting.refines hrefines, (hkept ⟨hwaiting, hs, hJ.none⟩).1⟩

lemma waiting_registering (hJ : KeptWaiting M b C J)
    (O : SymbolId → Prop) : Registering (visits env) (M O) fun s => Waiting M b O s ∧ J s :=
  .of_undisturbed (fun hst h => ⟨h.1.undisturbed hst, hJ.undisturbed h.1 hst h.2⟩)
    (fun span hcode h => ⟨h.1.reporting _ span, hJ.report span hcode h.2⟩)
    fun t h => resolveType_waiting hb hJ t h.1 h.2

lemma populateType_waiting (hJ : KeptWaiting M b C J)
    (hpair : pair ∈ pairs) (hparams : Avoids (M O) (env.program.scopedParams pair.1))
    (hwaiting : Waiting M b O s) (hs : J s) :
    Ends (visits env) (populateType env.program pair.1 pair.2) s fun _ t =>
      (Waiting M b O t ∧ J t) ∧ ((b.symbols.get pair.2).aliasTarget.isSome → ¬t.Open pair.2) := by
  by_cases halias : (b.symbols.get pair.2).aliasTarget.isSome
  · refine populateType_alias hb hpair halias fun span => ?_
    obtain ⟨target, htarget⟩ := Option.isSome_iff_exists.mp halias
    refine ⟨⟨hwaiting.refines (expand_refines pair.2 span [] s), ?_⟩, fun _ => ?_⟩
    · exact (hJ.expand span hwaiting hs hJ.none halias).1
    · exact expand_closes (by simp [hwaiting.target_eq htarget]) span []
  · have hkeeps : Keeps (visits env) (fun s => Waiting M b O s ∧ J s)
        (populateType env.program pair.1 pair.2) :=
      populateType_keeps (waiting_registering hb hJ O) hparams
        fun decl hstmt => absurd (hb.isSome_of_typeAlias hpair hstmt) halias
    exact (hkeeps.ends ⟨hwaiting, hs⟩).mono fun _ t ht => ⟨ht, fun hsome => absurd hsome halias⟩

/-- All type declarations are registered one after the other. No type parameter may take a name that
matters while the aliases that are left wait for their types. -/
lemma registerParts_waiting (hM : Mattering M)
    (hJ : KeptWaiting M b C J) (hparams : ∀ pair rest, (pair :: rest).Sublist pairs →
      Avoids (M fun id => ∃ stmt, (stmt, id) ∈ pair :: rest) (env.program.scopedParams pair.1))
    (hstart : J b) :
    Ends (visits env) (registerParts env.program pairs) b fun _ t =>
      Waiting M b (fun _ => False) t ∧ J t := by
  refine .bind (.forM (P := fun todo t => todo.Sublist pairs ∧
    Waiting M b (fun id => ∃ stmt, (stmt, id) ∈ todo) t ∧ J t) ?_
    ⟨.refl _, .start hb, hstart⟩) ?_
  · rintro pair rest s ⟨htodo, hwaiting, hs⟩
    have hpair := htodo.subset (.head _)
    refine (populateType_waiting hb hJ hpair (hparams pair rest htodo) hwaiting hs).mono ?_
    rintro _ t ⟨⟨ht, hafter⟩, hknown⟩
    refine ⟨(sublist_cons_self _ _).trans htodo, ht.restrict hM ?_ ?_, hafter⟩
    · exact fun id ⟨stmt, hmem⟩ => ⟨stmt, .tail _ hmem⟩
    · intro id halias hopen
      obtain ⟨stmt, hmem⟩ := ht.waiting halias hopen
      rcases mem_cons.mp hmem with rfl | hmem
      · exact absurd hopen (hknown halias)
      · exact ⟨stmt, hmem⟩
  · rintro _ t ⟨-, hwaiting, ht⟩
    have hall : Waiting M b (fun _ => False) t := hwaiting.restrict hM (fun _ hid => hid.elim)
      fun _ halias hopen => by simpa using hwaiting.waiting halias hopen
    have hfunctions : Keeps (visits env) (fun s => Waiting M b (fun _ => False) s ∧ J s)
        (env.program.items.forM (registerIfFunction env.program)) :=
      .forM_zero fun id _ => registerIfFunction_keeps (waiting_registering hb hJ _)
        fun param _ => hM.none param.name
    exact hfunctions.ends ⟨hall, ht⟩

lemma AllNamed.aliasTarget?_eq (hpair : pair ∈ pairs) :
    env.program.aliasTarget? pair.1 = (b.symbols.get pair.2).aliasTarget := by
  simp [Program.aliasTarget?, hb.symbol hpair]

lemma AllNamed.avoids (huncaptured : env.program.Uncaptured)
    {rest : List (StmtId × SymbolId)} (htodo : (pair :: rest).Sublist pairs) :
    Avoids (b.MentionedBy fun id => ∃ stmt, (stmt, id) ∈ pair :: rest)
      (env.program.scopedParams pair.1) := by
  have hitems := huncaptured.filter env.program.isType
  rw [← hb.items, pairwise_map] at hitems
  have hlater := (pairwise_cons.mp (hitems.sublist htodo)).1
  rintro param hparam ⟨id, target, ⟨stmt, hmem⟩, htarget, hname⟩
  have hdeclared := hb.aliasTarget?_eq (htodo.subset hmem)
  rw [htarget] at hdeclared
  rcases mem_cons.mp hmem with rfl | hrest
  · rw [Program.scopedParams_of_aliasTarget? hdeclared] at hparam
    exact absurd hparam not_mem_nil
  · exact hlater _ hrest target hdeclared param hparam hname

lemma registerParts_uncaptured
    (hJ : KeptWaiting b.MentionedBy b C J) (huncaptured : env.program.Uncaptured) (hstart : J b) :
    Ends (visits env) (registerParts env.program pairs) b fun _ t =>
      Waiting b.MentionedBy b (fun _ => False) t ∧ J t :=
  registerParts_waiting hb b.mentionedBy_mattering hJ (fun _ _ => hb.avoids huncaptured) hstart

end Registration

end StaticTyping
