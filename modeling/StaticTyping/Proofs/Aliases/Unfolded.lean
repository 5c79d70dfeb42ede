import StaticTyping.Proofs.Aliases.Waiting
import StaticTyping.Proofs.Aliases.Unfolding

/-! Aliases are expanded to what their targets unfold to, as long as the names that the targets mention
have kept their meaning and no alias leads to itself. -/

namespace StaticTyping

open Relation TypeExpr State Option Rule Ty

variable {ty : Ty} {id : SymbolId} {p : Program} {O : SymbolId → Prop}
  {pairs : List (StmtId × SymbolId)} {b s : State} {finding : Finding}

section

variable {p : Program} {pairs : List (StmtId × SymbolId)} {M : String → Prop} {b s : State}
  {found : SymbolId → Ty → Prop} (hb : AllNamed p pairs b) (hs : Since M b s)
  (hfound : ∀ id ty target, found id ty → (b.symbols.get id).aliasTarget = some target →
    Unfolds p.Declares target ty.forget)

include hb hs hfound

lemma nameDenotes_unfolds {span : Span} {name : String} {args : List TypeExpr} {types : List Ty}
    (hmatters : M name) (hname : isBuiltIn name = false)
    (hargs : List.Forall₂ (Unfolds p.Declares) args (types.map .forget))
    (h : s.NameDenotes found name types ty) : Unfolds p.Declares (.named span name args) ty.forget := by
  unfold NameDenotes at h
  rw [hs.lookup hmatters] at h
  cases hlookup : b.scopes.lookupType name with
  | none =>
    simp only [hlookup] at h
    subst h
    refine .unknown hname fun symbol hsymbol hsame => ?_
    obtain ⟨pair, hpair, rfl⟩ := hb.exists_pair hsymbol
    simp [← hsame, hb.found hpair] at hlookup
  | some id =>
    obtain ⟨stmt, hpair, rfl⟩ := hb.only hlookup
    have hkind : (s.symbols.get id).kind = (b.symbols.get id).kind := hs.grows.kind (hb.bound hpair)
    simp only [hlookup, hkind] at h
    rcases (StmtKind.kind_of_typeSymbol? (hb.symbol hpair)).2 with ⟨halias, htarget⟩ | ⟨htarget, hother⟩
    · obtain ⟨target, htarget⟩ := isSome_iff_exists.mp htarget
      simp only [halias] at h
      exact .expanded hname (hb.declares hpair) htarget (hfound id ty target h htarget)
    · have hty : ty = .named ⟨(b.symbols.get id).name, some id,
          (b.symbols.get id).kind == .classType⟩ (if types.isEmpty then none else some types) := by
        rcases hother with hkind | hkind | hkind <;> simpa only [hkind] using h
      obtain ⟨hlength, hzip⟩ := List.forall₂_iff_zip.mp hargs
      rw [hty, forget_named]
      exact .nominal hlength (fun _ _ => hzip) hname (hb.declares hpair) htarget

omit hb hs hfound in
lemma denoteAll_unfolds {ts : List TypeExpr} {types : List Ty}
    (hts : ∀ t ∈ ts, ∀ {ty : Ty}, (∀ name ∈ t.names, M name) → t.Denotes s found ty →
      Unfolds p.Declares t ty.forget)
    (hnames : ∀ name ∈ namesAll ts, M name) (h : DenoteAll s found ts types) :
    List.Forall₂ (Unfolds p.Declares) ts (types.map .forget) := by
  induction ts generalizing types with
  | nil =>
    subst h
    exact .nil
  | cons t rest ih =>
    obtain ⟨ty, others, ht, hrest, rfl⟩ := h
    rw [List.forall_mem_cons] at hts
    refine .cons (hts.1 (fun name hname => ?_) ht) (ih hts.2 (fun name hname => ?_) hrest)
    · exact hnames name (List.mem_append_left _ hname)
    · exact hnames name (List.mem_append_right _ hname)

theorem denotes_unfolds : ∀ {t : TypeExpr} {ty : Ty}, (∀ name ∈ t.names, M name) →
    t.Denotes s found ty → Unfolds p.Declares t ty.forget
  | .named span name args, ty, hnames, h => by
    obtain ⟨types, hargs, hname⟩ := h
    have hunfold := denoteAll_unfolds (fun _ _ => denotes_unfolds)
      (fun name hname => hnames name (.tail _ hname)) hargs
    cases hbuiltIn : builtInType? name types with
    | some known =>
      simp only [hbuiltIn] at hname
      subst hname
      obtain ⟨hlength, hzip⟩ := List.forall₂_iff_zip.mp hunfold
      refine .builtIn hlength (fun _ _ => hzip) ?_
      rw [builtInType?_forget, hbuiltIn, map_some]
    | none =>
      simp only [hbuiltIn] at hname
      exact nameDenotes_unfolds hb hs hfound (hnames name (.head _))
        (builtInType?_eq_none_iff.mp hbuiltIn) hunfold hname
  | .union _ members, ty, hnames, h => by
    obtain ⟨types, hmembers, rfl⟩ := h
    obtain ⟨hlength, hzip⟩ :=
      List.forall₂_iff_zip.mp (denoteAll_unfolds (fun _ _ => denotes_unfolds) hnames hmembers)
    rw [← makeUnion_forget]
    exact .union hlength fun _ _ => hzip
  | .tuple _ elements, ty, hnames, h => by
    obtain ⟨types, helements, rfl⟩ := h
    obtain ⟨hlength, hzip⟩ :=
      List.forall₂_iff_zip.mp (denoteAll_unfolds (fun _ _ => denotes_unfolds) hnames helements)
    rw [forget, forgetAll_eq_map]
    exact .tuple hlength fun _ _ => hzip
  | .fn _ params result, ty, hnames, h => by
    obtain ⟨types, returned, hparams, hresult, rfl⟩ := h
    obtain ⟨hlength, hzip⟩ := List.forall₂_iff_zip.mp (denoteAll_unfolds (fun _ _ => denotes_unfolds)
      (fun name hname => hnames name (List.mem_append_left _ hname)) hparams)
    rw [forget, forgetAll_eq_map]
    refine .fn hlength (fun _ _ => hzip) (denotes_unfolds (fun name hname => ?_) hresult)
    exact hnames name (List.mem_append_right _ hname)
  | .hole _, ty, _, h => by
    subst h
    exact .hole

end

/-- No cycle was reported, and an alias that has a type has the one that its target unfolds to. -/
structure Faithful (p : Program) (b s : State) : Prop where
  calm : s.diagnostics.count .aliasCycle = 0
  known {id : SymbolId} {target : TypeExpr} {ty : Ty} :
    (b.symbols.get id).aliasTarget = some target → (s.symbols.get id).ty = some ty →
    Unfolds p.Declares target ty.forget

/-- Nothing is wrong so far, and the names that aliases in `O` mention have kept their meaning. -/
structure Unfolded (p : Program) (b : State) (O : SymbolId → Prop) (s : State) : Prop
    extends Waiting b.MentionedBy b O s, Faithful p b s

lemma Faithful.start (hb : AllNamed p pairs b) : Faithful p b b where
  calm := hb.calm
  known {id target ty} htarget hty := by
    have halias : (b.symbols.get id).aliasTarget.isSome := by simp [htarget]
    rw [show (b.symbols.get id).ty = none from hb.open_alias halias] at hty
    cases hty

lemma Faithful.reporting (h : Faithful p b s)
    (hcode : finding.code ≠ .aliasCycle) (span : Span) : Faithful p b (s.reporting finding span) :=
  ⟨(Diagnostics.count_push_of_ne _ hcode).trans h.calm, h.known⟩

namespace Unfolded

variable {p : Program} {b s t : State} {O : SymbolId → Prop}

lemma reporting (h : Unfolded p b O s) (hcode : finding.code ≠ .aliasCycle)
    (span : Span) : Unfolded p b O (s.reporting finding span) :=
  ⟨h.toWaiting.reporting finding span, h.toFaithful.reporting hcode span⟩

lemma undisturbed (h : Unfolded p b O s) (hst : Undisturbed (b.MentionedBy O) s t) :
    Unfolded p b O t := by
  refine ⟨h.toWaiting.undisturbed hst, ?_, fun {id target ty} htarget hty => ?_⟩
  · rw [hst.diagnostics]
    exact h.calm
  · rw [h.toWaiting.types_eq hst (by simp [htarget])] at hty
    exact h.known htarget hty

end Unfolded

def IsUnfolding (p : Program) (b : State) (id : SymbolId) (ty : Ty) : Prop :=
  ∀ target, (b.symbols.get id).aliasTarget = some target → Unfolds p.Declares target ty.forget

lemma Unfolded.fillType (h : Unfolded p b O s) (hty : IsUnfolding p b id ty) :
    Unfolded p b O ((Action.fillType id ty).step s).2 where
  toWaiting := h.toWaiting.refines (.fillType s id ty)
  calm := h.calm
  known {other target found} htarget hfound := by
    by_cases hother : other = id
    · subst hother
      cases hopen : (s.symbols.get other).ty with
      | some known =>
        rw [(Refines.fillType s other ty).known hopen] at hfound
        exact some.inj hfound ▸ h.known htarget hopen
      | none =>
        rw [fillType_open (by simp [h.target_eq htarget]) hopen] at hfound
        exact some.inj hfound ▸ hty target htarget
    · rw [fillType_other s hother] at hfound
      exact h.known htarget hfound

def GoesWell (p : Program) (b : State) (O : SymbolId → Prop) (u w : Progress) : Prop :=
  u.2.Refines w.2 ∧ (u.1 = [] ∧ Unfolded p b O u.2 → w.1 = [] ∧ Unfolded p b O w.2)

lemma goesWell_course (p : Program) (b : State) (O : SymbolId → Prop) :
    Course (GoesWell p b O) fun id ty _ => IsUnfolding p b id ty where
  refl w := ⟨.refl w.2, fun h => h⟩
  trans huv hvw := ⟨huv.1.trans hvw.1, fun h => hvw.2 (huv.2 h)⟩
  report _ _ hcode span := ⟨.of_symbols rfl rfl, fun h => ⟨h.1, h.2.reporting hcode span⟩⟩
  scopes h := h.1.scopes
  kind h := h.1.kind
  found _ h := h

structure FindsUnfolding (p : Program) (b : State) (O : SymbolId → Prop) (id : SymbolId)
    (r : Ty × Cyclic) (t : State) : Prop where
  cyclic : r.2 = []
  unfolded : Unfolded p b O t
  type : IsUnfolding p b id r.1
  known : ¬t.Open id

lemma Unfolded.findsUnfolding (h : Unfolded p b O s)
    (halias : (b.symbols.get id).aliasTarget.isSome) (hty : IsUnfolding p b id ty) :
    FindsUnfolding p b O id (ty, []) ((Action.fillType id ty).step s).2 where
  cyclic := rfl
  unfolded := h.fillType hty
  type := hty
  known hopen := by
    obtain ⟨target, htarget⟩ := isSome_iff_exists.mp halias
    have hstill : (s.symbols.get id).aliasTarget.isSome := by simp [h.target_eq htarget]
    have hfilled := fillType_isSome hstill ty
    unfold Open at hopen
    simp [hopen] at hfilled

namespace Check

variable {p : Program} {pairs : List (StmtId × SymbolId)} {b s : State} {O : SymbolId → Prop}

/-- Where no alias leads to itself, no expansion meets an alias that is being expanded. -/
lemma expandWithin_unfolds (hb : AllNamed p pairs b)
    (hacyclic : ∀ name, ¬TransGen p.AliasRefers name name) {names active : List String} {depth : Nat}
    (h : Expanding names depth active) (span : Span) (hnames : s.AliasNames names)
    (hs : Unfolded p b O s) (halias : (b.symbols.get id).aliasTarget.isSome)
    (htrail : ∀ name ∈ active, TransGen p.AliasRefers name (b.symbols.get id).name) :
    FindsUnfolding p b O id ((expandWithin depth active id span []).run s).1
      ((expandWithin depth active id span []).run s).2 := by
  induction depth generalizing active id span s with
  | zero => exact h.depth_pos.elim
  | succ depth ih =>
    obtain ⟨target, htarget⟩ := isSome_iff_exists.mp halias
    have hname := hs.since.grows.name (lt_of_aliasTarget halias)
    have hends : Rule.Ends { expand := expandWithin depth } (expandAlias active id span []) s
        (FindsUnfolding p b O id) := by
      refine expandAlias_ends (hs.target_eq htarget) ?_ ?_ ?_
      · intro ty hty
        refine ⟨rfl, hs, fun target' htarget' => hs.known htarget' hty, ?_⟩
        simp [Open, hty]
      · intro _ hactive
        rw [hname] at hactive
        exact absurd (htrail _ hactive) (hacyclic _)
      · intro hopen hidle
        rw [hname] at hidle ⊢
        have hmentioned := hs.mentioned htarget hopen
        have hexpanding := h.cons hidle (hname ▸ hnames.get id (by simp [hs.target_eq htarget]))
        have hexpand : Expands { expand := expandWithin depth } ((b.symbols.get id).name :: active)
            (GoesWell p b O) (fun id ty _ => IsUnfolding p b id ty) ([], s) target.names := by
          rintro ⟨cyclic, t⟩ other span hw hother
          obtain ⟨rfl, ht⟩ := hw.2 ⟨rfl, hs⟩
          have hrefers : b.Refers id other :=
            ⟨target, htarget, (hs.since.aliasAmong hmentioned other).mp hother⟩
          have hstep := hb.aliasRefers_of_refers hrefers
          have hnext := hnames.refines hw.1
          have hfinds := ih hexpanding span hnext ht (hb.properAliases.isSome_right hrefers) ?_
          · exact ⟨⟨expandWithin_refines _ _ other span [] _,
              fun _ => ⟨hfinds.cyclic, hfinds.unfolded⟩⟩, hfinds.type⟩
          · intro name hactive
            rcases List.mem_cons.mp hactive with rfl | hactive
            · exact .single hstep
            · exact (htrail name hactive).tail hstep
        have hcourse := goesWell_course p b O
        refine (resolveIn_denotes hcourse target hexpand (hcourse.refl _)).mono ?_
        rintro ⟨ty, cyclic⟩ t ⟨hwell, hdenotes⟩
        obtain ⟨rfl, ht⟩ := hwell.2 ⟨rfl, hs⟩
        have hty : IsUnfolding p b id ty := by
          intro target' htarget'
          obtain rfl := some.inj (htarget.symm.trans htarget')
          exact denotes_unfolds hb hs.since (fun _ _ target hfound => hfound target) hmentioned hdenotes
        exact ht.findsUnfolding halias hty
    exact hends

end Check

lemma faithful_kept (hb : AllNamed p pairs b)
    (hacyclic : ∀ name, ¬TransGen p.AliasRefers name name) :
    KeptWaiting b.MentionedBy b (· = []) (Faithful p b) where
  none := rfl
  undisturbed hwaiting hst h := (Unfolded.undisturbed ⟨hwaiting, h⟩ hst).toFaithful
  report span hcode h := h.reporting hcode span
  expand span _ hwaiting h hcyclic halias := by
    subst hcyclic
    obtain ⟨names, hnames, hexpanding⟩ := exists_expanding _
    have hfinds := Check.expandWithin_unfolds hb hacyclic (hexpanding 0) span hnames ⟨hwaiting, h⟩ halias
      fun name hactive => absurd hactive List.not_mem_nil
    exact ⟨hfinds.unfolded.toFaithful, hfinds.cyclic⟩

end StaticTyping
