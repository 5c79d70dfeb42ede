import StaticTyping.Proofs.Aliases.Declared

/-! Aliases on cycles. If aliases refer to each other in a single ring, each of them is an error. Where
cycles overlap, one of their aliases is an error at least, and which one depends on the order in which
they are declared: an alias that no earlier one leads to is an error, and others need not be. -/

namespace StaticTyping

open Relation List Check StmtKind

namespace Program

/-- Aliases that lead to each other. -/
def Tangled (p : Program) (name other : String) : Prop :=
  TransGen p.AliasRefers name other ∧ TransGen p.AliasRefers other name

/-- Each alias that is tangled with this one refers to one of these only. -/
def InRing (p : Program) (name : String) : Prop :=
  ∀ u v v', p.Tangled name u → p.Tangled name v → p.Tangled name v' → p.AliasRefers u v →
    p.AliasRefers u v' → v = v'

/-- No alias that is declared earlier leads to this one. -/
def MetFirst (p : Program) (name : String) : Prop :=
  ∀ earlier later, p.typeNames = earlier ++ name :: later → ∀ other ∈ earlier,
    ¬TransGen p.AliasRefers other name

end Program

def StmtKind.registersAlias : StmtKind → Bool
  | .function _ | .record _ _ | .enum _ => false
  | _ => true

lemma Check.expand_expanded {b : State} (hb : b.ProperAliases) {id : SymbolId} (span : Span)
    {w : Progress} (hkeeps : b.KeepsAliases w.2) (halias : (b.symbols.get id).aliasTarget.isSome) :
    Expanded b [] id w (((expand [] id span w.1).run w.2).1.2, ((expand [] id span w.1).run w.2).2) := by
  obtain ⟨names, hnames, hexpanding⟩ := w.2.exists_expanding
  have htrail : Trail b [] id :=
    ⟨fun _ hactive => absurd hactive not_mem_nil, fun _ hactive => absurd hactive not_mem_nil⟩
  exact expandWithin_expanded hb (hexpanding 0) span hnames hkeeps halias htrail

/-- What is known once the aliases in `done` were expanded one after the other. -/
structure Swept (b : State) (done : List SymbolId) (s : State) : Prop where
  refines : b.Refines s
  sweeps : Sweeps b [] b s
  known {id : SymbolId} : id ∈ done → ¬s.Open id
  reached {id : SymbolId} : b.Open id → ¬s.Open id →
    ∃ origin ∈ done, ReflTransGen b.Refers origin id
  failed {earlier later : List SymbolId} {id : SymbolId} : done = earlier ++ id :: later →
    TransGen b.Refers id id → (∀ origin ∈ earlier, ¬TransGen b.Refers origin id) →
    (s.symbols.get id).ty = some .error

variable {b t : State} {pairs : List (StmtId × SymbolId)}

namespace Swept

variable {s : State} {done : List SymbolId} {id : SymbolId} {cyclic : Cyclic}

lemma start (b : State) : Swept b [] b where
  refines := .refl b
  sweeps := .of_symbols rfl
  known h := absurd h not_mem_nil
  reached hopen hknown := absurd hopen hknown
  failed h := absurd h (by simp)

/-- An alias on a cycle that no earlier one leads to is met while all of the cycle is open. -/
lemma openRefers (h : Swept b done s) (hopen : ∀ {u v}, b.Refers u v → b.Open u)
    (hcycle : TransGen b.Refers id id) (hfirst : ∀ origin ∈ done, ¬TransGen b.Refers origin id) :
    TransGen (OpenRefers b s) id id := by
  have hstill {u v : SymbolId} (huv : b.Refers u v) (hpath : TransGen b.Refers u id) : s.Open u := by
    by_contra hknown
    obtain ⟨origin, horigin, hreach⟩ := h.reached (hopen huv) hknown
    exact hfirst origin horigin (hpath.trans_right hreach)
  have hpath {u : SymbolId} (hu : TransGen b.Refers u id) : TransGen (OpenRefers b s) u id := by
    induction hu using TransGen.head_induction_on with
    | single hlast => exact .single ⟨hstill hlast (.single hlast), hlast⟩
    | head hstep hrest ih => exact .head ⟨hstill hstep (.head hstep hrest), hstep⟩ ih
  exact hpath hcycle

lemma step (h : Swept b done s) (hopen : ∀ {u v}, b.Refers u v → b.Open u)
    (hexpanded : Expanded b [] id ([], s) (cyclic, t)) : Swept b (done ++ [id]) t where
  refines := h.refines.trans hexpanded.searches.1.refines
  sweeps := h.sweeps.trans hexpanded.searches.2 hexpanded.searches.1.refines
  known {other} hother := by
    rcases mem_append.mp hother with hother | hother
    · exact fun hstill => h.known hother (hexpanded.searches.1.refines.open_of_open hstill)
    · obtain rfl := mem_singleton.mp hother
      rcases hexpanded.settled with hknown | ⟨hactive, -⟩
      · exact hknown
      · exact absurd hactive not_mem_nil
  reached {other} hother hknown := by
    by_cases hmiddle : s.Open other
    · obtain ⟨_, rfl, hpath⟩ := hexpanded.searches.1.reached hmiddle hknown
      exact ⟨_, mem_append_right _ (.head _), hpath⟩
    · obtain ⟨origin, horigin, hpath⟩ := h.reached hother hmiddle
      exact ⟨origin, mem_append_left _ horigin, hpath⟩
  failed {earlier later other} hdone hcycle hfirst := by
    rcases eq_nil_or_concat later with rfl | ⟨later, last, rfl⟩
    · obtain ⟨rfl, hid⟩ := append_inj' hdone rfl
      obtain rfl := singleton_inj.mp hid
      exact hexpanded.failed (h.openRefers hopen hcycle hfirst) not_mem_nil
    · rw [concat_eq_append, ← cons_append, ← append_assoc] at hdone
      obtain ⟨hdone, -⟩ := append_inj' hdone rfl
      exact hexpanded.searches.1.refines.known (h.failed hdone hcycle hfirst)

end Swept

namespace Rule

variable {env : Env}

lemma populateType_swept (hb : AllNamed env.program pairs b) {pair : StmtId × SymbolId}
    (hpair : pair ∈ pairs) (hkind : (env.program.stmt pair.1).kind.registersAlias)
    {done : List SymbolId} {s : State} (hs : Swept b done s) :
    Ends (visits env) (populateType env.program pair.1 pair.2) s fun _ =>
      Swept b (done ++ [pair.2]) := by
  have halias : (b.symbols.get pair.2).aliasTarget.isSome := by
    have hsymbol := hb.symbol hpair
    cases hstmt : (env.program.stmt pair.1).kind with
    | typeAlias decl => exact hb.isSome_of_typeAlias hpair hstmt
    | function | record | enum => simp [hstmt, registersAlias] at hkind
    | _ => simp [hstmt, typeSymbol?] at hsymbol
  refine populateType_alias hb hpair halias fun span => ?_
  have hkeeps := (State.KeepsAliases.refl b).refines hs.refines
  exact hs.step (fun huv => hb.open_alias huv.isSome_left)
    (expand_expanded hb.properAliases span (w := ([], s)) hkeeps halias)

lemma registerParts_swept (hb : AllNamed env.program pairs b)
    (hitems : ∀ id ∈ env.program.items, (env.program.stmt id).kind.registersAlias) :
    Ends (visits env) (registerParts env.program pairs) b fun _ =>
      Swept b (pairs.map (·.2)) := by
  refine .bind (.forM (P := fun todo t => ∃ done, pairs = done ++ todo ∧
    Swept b (done.map (·.2)) t) ?_ ⟨[], rfl, .start b⟩) ?_
  · rintro pair rest t ⟨done, hpairs, ht⟩
    have hpair : pair ∈ pairs := by simp [hpairs]
    refine (populateType_swept hb hpair (hitems _ (hb.mem_items hpair)) ht).mono fun _ u hu => ?_
    exact ⟨done ++ [pair], by simp [hpairs], by simpa using hu⟩
  · rintro _ t ⟨done, hpairs, ht⟩
    rw [append_nil] at hpairs
    subst hpairs
    have hfunctions : Keeps (visits env) (Swept b (pairs.map (·.2)))
        (env.program.items.forM (registerIfFunction env.program)) := by
      refine .forM_zero fun id hid => ?_
      have hkind := hitems id hid
      unfold registerIfFunction
      cases hstmt : (env.program.stmt id).kind with
      | function => simp [hstmt, registersAlias] at hkind
      | _ => exact .pure ()
    exact hfunctions.ends ht

end Rule

namespace AllNamed

variable {p : Program} {x v : SymbolId}

lemma tangled (h : AllNamed p pairs b) (hv : Knot b x v) :
    p.Tangled (b.symbols.get x).name (b.symbols.get v).name :=
  ⟨h.transGen_names hv.1, h.transGen_names hv.2⟩

lemma transGen_self (h : AllNamed p pairs b) (hx : (b.symbols.get x).aliasTarget.isSome)
    (hcycle : TransGen p.AliasRefers (b.symbols.get x).name (b.symbols.get x).name) :
    TransGen b.Refers x x := by
  obtain ⟨y, hxy, hname⟩ := h.exists_transGen hx hcycle
  obtain ⟨_, -, hlast⟩ := TransGen.tail'_iff.mp hxy
  obtain rfl := h.properAliases.distinct (h.properAliases.isSome_right hlast) hx hname
  exact hxy

lemma ring (h : AllNamed p pairs b) (hring : p.InRing (b.symbols.get x).name) : Ring b x := by
  intro u v v' hu hv hv' huv huv'
  refine h.properAliases.distinct hv.isSome hv'.isSome ?_
  exact hring _ _ _ (h.tangled hu) (h.tangled hv) (h.tangled hv') (h.aliasRefers_of_refers huv)
    (h.aliasRefers_of_refers huv')

lemma exists_split (h : AllNamed p pairs b) (hx : (b.symbols.get x).aliasTarget.isSome) :
    ∃ earlier later, pairs.map (·.2) = earlier ++ x :: later ∧
      p.typeNames = earlier.map (fun id => (b.symbols.get id).name) ++ (b.symbols.get x).name ::
        later.map (fun id => (b.symbols.get id).name) := by
  obtain ⟨stmt, hpair⟩ := h.aliases (.inr hx)
  obtain ⟨earlier, later, hsplit⟩ := List.append_of_mem (List.mem_map_of_mem (f := (·.2)) hpair)
  refine ⟨earlier, later, hsplit, ?_⟩
  rw [h.typeNames_eq, ← map_cons (f := fun id => (b.symbols.get id).name), ← map_append,
    ← hsplit, List.map_map]
  rfl

lemma aliasHas (h : AllNamed p pairs b) (ht : b.Refines t) {ty : Ty}
    (hv : (b.symbols.get v).aliasTarget.isSome) (hty : (t.symbols.get v).ty = some ty) :
    t.AliasHas (b.symbols.get v).name ty :=
  ⟨v, by rw [ht.scopes, h.lookup_alias hv], hty⟩

end AllNamed

/-- An alias on a cycle is an error if its cycle is a single ring, and if no earlier alias leads to it.
In any case some alias of its knot is. -/
theorem Check.registered_alias_cycle (env : Env) (imports : List Ident)
    (hitems : ∀ id ∈ env.program.items, (env.program.stmt id).kind.registersAlias)
    (hnodup : env.program.typeNames.Nodup) {name : String}
    (hcycle : TransGen env.program.AliasRefers name name) :
    (env.program.InRing name → (registered env imports).AliasHas name .error) ∧
    (env.program.MetFirst name → (registered env imports).AliasHas name .error) ∧
    ∃ other, env.program.Tangled name other ∧ (registered env imports).AliasHas other .error := by
  refine registered_of_parts (Q := fun t => (env.program.InRing name → t.AliasHas name .error) ∧
    (env.program.MetFirst name → t.AliasHas name .error) ∧
    ∃ other, env.program.Tangled name other ∧ t.AliasHas other .error) hnodup fun pairs b hb => ?_
  refine (Rule.registerParts_swept hb hitems).mono fun _ t ht => ?_
  obtain ⟨_, ⟨target, _, halias, -⟩, -⟩ := TransGen.head'_iff.mp hcycle
  obtain ⟨x, -, rfl, htarget⟩ := hb.exists_alias halias
  have hx : (b.symbols.get x).aliasTarget.isSome := by simp [htarget]
  have hself := hb.transGen_self hx hcycle
  obtain ⟨earlier, later, hdone, hnames⟩ := hb.exists_split hx
  have hknot : Knot b x x := ⟨hself, hself⟩
  have hopen (v : SymbolId) (hv : Knot b x v) : b.Open v := hb.open_alias hv.isSome
  have hknown : ¬∀ v, Knot b x v → t.Open v := fun hstill =>
    ht.known (by rw [hdone]; exact mem_append_right _ (.head _)) (hstill x hknot)
  refine ⟨fun hring => ?_, fun hfirst => ?_, ?_⟩
  · have herror := (ht.sweeps.ring (hb.ring hring) hopen).resolve_left hknown
    exact hb.aliasHas ht.refines hx (herror x hknot not_mem_nil)
  · refine hb.aliasHas ht.refines hx (ht.failed hdone hself fun origin horigin hpath => ?_)
    exact hfirst _ _ hnames _ (mem_map_of_mem horigin) (hb.transGen_names hpath)
  · obtain ⟨v, hv, herror⟩ := (ht.sweeps.knot (fun _ _ => not_mem_nil) hopen).resolve_left hknown
    exact ⟨_, hb.tangled hv, hb.aliasHas ht.refines hv.isSome herror⟩

/-- Three aliases on two cycles that overlap. -/
def overlapSample : Program where
  statements := #[
    ⟨{}, .typeAlias { name := ⟨"A", {}⟩, target := .tuple {} [.named {} "B" [], .named {} "C" []] }⟩,
    ⟨{}, .typeAlias { name := ⟨"B", {}⟩, target := .named {} "A" [] }⟩,
    ⟨{}, .typeAlias { name := ⟨"C", {}⟩, target := .tuple {} [.named {} "B" [], .named {} "i32" []] }⟩]
  items := [⟨0⟩, ⟨1⟩, ⟨2⟩]

lemma overlapSample_refers : overlapSample.AliasRefers "A" "B" ∧ overlapSample.AliasRefers "B" "A" ∧
    overlapSample.AliasRefers "A" "C" ∧ overlapSample.AliasRefers "C" "B" := by
  have hA : overlapSample.Aliases "A" (.tuple {} [.named {} "B" [], .named {} "C" []]) :=
    ⟨_, ⟨⟨0⟩, by decide, rfl⟩, rfl, rfl⟩
  have hB : overlapSample.Aliases "B" (.named {} "A" []) := ⟨_, ⟨⟨1⟩, by decide, rfl⟩, rfl, rfl⟩
  have hC : overlapSample.Aliases "C" (.tuple {} [.named {} "B" [], .named {} "i32" []]) :=
    ⟨_, ⟨⟨2⟩, by decide, rfl⟩, rfl, rfl⟩
  exact ⟨⟨_, _, hA, hB, by decide, by decide⟩, ⟨_, _, hB, hA, by decide, by decide⟩,
    ⟨_, _, hA, hC, by decide, by decide⟩, ⟨_, _, hC, hB, by decide, by decide⟩⟩

/-- Two aliases that refer to each other. -/
def ringSample : Program where
  statements := #[
    ⟨{}, .typeAlias { name := ⟨"A", {}⟩, target := .named {} "Array" [.named {} "B" []] }⟩,
    ⟨{}, .typeAlias { name := ⟨"B", {}⟩, target := .named {} "A" [] }⟩]
  items := [⟨0⟩, ⟨1⟩]

lemma ringSample_refers_iff {name other : String} : ringSample.AliasRefers name other ↔
    name = "A" ∧ other = "B" ∨ name = "B" ∧ other = "A" := by
  have hA : ringSample.Aliases "A" (.named {} "Array" [.named {} "B" []]) :=
    ⟨_, ⟨⟨0⟩, by decide, rfl⟩, rfl, rfl⟩
  have hB : ringSample.Aliases "B" (.named {} "A" []) := ⟨_, ⟨⟨1⟩, by decide, rfl⟩, rfl, rfl⟩
  constructor
  · rintro ⟨target, -, ⟨symbol, ⟨id, hid, hsymbol⟩, rfl, htarget⟩, -, hother, hbuiltIn⟩
    have hitems : id ∈ [(⟨0⟩ : StmtId), ⟨1⟩] := hid
    rcases mem_pair.mp hitems with rfl | rfl
    · cases hsymbol
      cases htarget
      have hcases : other = "Array" ∨ other = "B" := List.mem_pair.mp hother
      rcases hcases with rfl | rfl
      · exact absurd hbuiltIn (by decide)
      · exact .inl ⟨rfl, rfl⟩
    · cases hsymbol
      cases htarget
      exact .inr ⟨rfl, mem_singleton.mp hother⟩
  · rintro (⟨rfl, rfl⟩ | ⟨rfl, rfl⟩)
    · exact ⟨_, _, hA, hB, by decide, by decide⟩
    · exact ⟨_, _, hB, hA, by decide, by decide⟩

theorem Check.registered_alias_cycle_sample :
    (TransGen overlapSample.AliasRefers "A" "A" ∧ overlapSample.MetFirst "A" ∧
      (registered ⟨overlapSample, {}⟩ []).AliasHas "A" .error) ∧
    TransGen ringSample.AliasRefers "B" "B" ∧ ringSample.InRing "B" ∧
      (registered ⟨ringSample, {}⟩ []).AliasHas "B" .error := by
  obtain ⟨hAB, hBA, -, -⟩ := overlapSample_refers
  have hcycle : TransGen overlapSample.AliasRefers "A" "A" := .head hAB (.single hBA)
  have hfirst : overlapSample.MetFirst "A" := by
    intro earlier later hsplit other hother
    have hnames : overlapSample.typeNames = ["A", "B", "C"] := rfl
    rw [hnames] at hsplit
    cases earlier with
    | nil => exact absurd hother not_mem_nil
    | cons first rest =>
      have hmem : "A" ∈ ["B", "C"] := by
        rw [(cons.inj hsplit).2]
        exact mem_append_right _ (.head _)
      exact absurd hmem (by decide)
  have hback : TransGen ringSample.AliasRefers "B" "B" :=
    .head (ringSample_refers_iff.mpr (.inr ⟨rfl, rfl⟩))
      (.single (ringSample_refers_iff.mpr (.inl ⟨rfl, rfl⟩)))
  have hring : ringSample.InRing "B" := by
    intro u v v' _ _ _ huv huv'
    rw [ringSample_refers_iff] at huv huv'
    rcases huv with ⟨rfl, rfl⟩ | ⟨rfl, rfl⟩
    · have hv' : v' = "B" := by simpa using huv'
      exact hv'.symm
    · have hv' : v' = "A" := by simpa using huv'
      exact hv'.symm
  have hoverlap := registered_alias_cycle ⟨overlapSample, {}⟩ [] (by decide) (by decide) hcycle
  have hboth := registered_alias_cycle ⟨ringSample, {}⟩ [] (by decide) (by decide) hback
  exact ⟨⟨hcycle, hfirst, hoverlap.2.1 hfirst⟩, hback, hring, hboth.1 hring⟩

/-- The third alias lies on a cycle, and it is a tuple: it gets its type while the first is still being
expanded, and the cycle was closed before, at the second. -/
theorem Check.registered_alias_cycle_overlap : TransGen overlapSample.AliasRefers "C" "C" ∧
    (registered ⟨overlapSample, {}⟩ []).AliasHas "C" (.tuple [.error, .prim .i32]) := by
  obtain ⟨-, hBA, hAC, hCB⟩ := overlapSample_refers
  exact ⟨.head hCB (.head hBA (.single hAC)), ⟨2⟩, rfl, rfl⟩

end StaticTyping
