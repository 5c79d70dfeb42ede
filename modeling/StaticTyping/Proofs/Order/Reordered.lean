import StaticTyping.Proofs.Order.Checking

/-! The order of declarations. A program is registered item by item and then checked item by item. Each
item is registered alike and checked alike wherever it stands, so that in every order the same is put
out. -/

namespace StaticTyping

open Relation Check Region State Rule List Option Program StmtKind

variable {p : Program} {items : List StmtId} {s t : State}

namespace Program.Unordered

lemma inOrder (h : p.Unordered) (hperm : items.Perm p.items) : (p.inOrder items).Unordered where
  singleUse := ⟨h.singleUse.exprs, (hperm.append_right _).nodup_iff.mpr h.singleUse.stmts⟩
  declarations hx := h.declarations (hperm.mem_iff.mp hx)
  typeNames := (typeNames_inOrder hperm).nodup_iff.mpr h.typeNames
  valueNames := (hperm.flatMap_right _).nodup_iff.mpr h.valueNames
  results := by
    rintro x decl (hx | ⟨item, hitem, hx⟩) hdecl
    · exact h.results (.inl (hperm.mem_iff.mp hx)) hdecl
    · exact h.results (.inr ⟨item, hperm.mem_iff.mp hitem, hx⟩) hdecl

end Program.Unordered

section Registering

variable {env : Env} {named : StmtId → Option SymbolId}

lemma Rule.toCheck_forM {β : Type} (visits : Visits) (f : β → Rule Unit) (xs : List β) :
    (xs.forM f).toCheck visits = xs.forM fun x => (f x).toCheck visits := by
  induction xs with
  | nil => rfl
  | cons x rest ih =>
    have hcons : ((x :: rest).forM f).toCheck visits =
        (f x).toCheck visits >>= fun _ => (rest.forM f).toCheck visits :=
      toCheck_bind visits (f x) fun _ => rest.forM f
    rw [hcons, ih]
    rfl

lemma Rule.populate_eq_registerItem {pairs : List (StmtId × SymbolId)}
    (h : ∀ pair ∈ pairs, named pair.1 = some pair.2) :
    (pairs.forM fun pair => populateType p pair.1 pair.2) =
      (pairs.map (·.1)).forM (registerItem p named) := by
  induction pairs with
  | nil => rfl
  | cons pair rest ih =>
    obtain ⟨hpair, hrest⟩ := forall_mem_cons.mp h
    have hitem : registerItem p named pair.1 = populateType p pair.1 pair.2 := by
      rw [registerItem, hpair]
    show (populateType p pair.1 pair.2 >>= fun _ => _) = registerItem p named pair.1 >>= fun _ => _
    rw [hitem, ih hrest]

lemma Rule.functions_eq_registerItem {xs : List StmtId}
    (h : ∀ x ∈ xs, (named x).isSome ↔ p.isType x) :
    xs.forM (registerIfFunction p) = (xs.filter fun x => !p.isType x).forM (registerItem p named) := by
  induction xs with
  | nil => rfl
  | cons x rest ih =>
    obtain ⟨hx, hrest⟩ := forall_mem_cons.mp h
    have hcons : (x :: rest).forM (registerIfFunction p) =
        registerIfFunction p x >>= fun _ => rest.forM (registerIfFunction p) := rfl
    rw [hcons, ih hrest]
    by_cases htype : p.isType x = true
    · have hnothing : registerIfFunction p x = pure () := by
        unfold registerIfFunction
        unfold isType at htype
        split
        · rename_i decl hkind
          simp [hkind, typeSymbol?] at htype
        · rfl
      rw [hnothing, filter_cons_of_neg (by simp [htype]), pure_bind]
    · have hnone : named x = none := by
        rw [← not_isSome_iff_eq_none, hx]
        exact htype
      have hitem : registerItem p named x = registerIfFunction p x := by
        rw [registerItem, hnone]
      rw [filter_cons_of_pos (by simpa using htype), ← hitem]
      rfl

def Program.registrationOrder (p : Program) : List StmtId :=
  p.items.filter p.isType ++ p.items.filter fun x => !p.isType x

lemma Program.registrationOrder_perm (p : Program) : p.registrationOrder.Perm p.items :=
  filter_append_perm p.isType p.items

lemma Check.registered_eq_after (env : Env) (hp : env.program.DistinctTypes) :
    ∃ s, TypesRegistered env.program s ∧ registered env [] =
        after (registerItem env s.symbolOf) env.program.registrationOrder s := by
  have hends : Ends (visits env) (do
      ([] : List Ident).forM declareImport
      .registerDeclarations env.program env.program.items) {} fun _ t =>
        ∃ s, TypesRegistered env.program s ∧
          t = after (registerItem env s.symbolOf) env.program.registrationOrder s := by
    refine (registerTypeNames_registers env hp).bind fun pairs s hnamed => ?_
    obtain ⟨hs, hpairs, hlookup⟩ := hnamed
    refine ⟨s, hs, ?_⟩
    have hfunctions : ∀ x ∈ env.program.items, (s.symbolOf x).isSome ↔ env.program.isType x :=
      fun x hx => by simp [symbolOf, hs.declared, hx]
    have htypes : ∀ pair ∈ pairs, s.symbolOf pair.1 = some pair.2 := hlookup
    rw [populate_eq_registerItem htypes, hpairs, functions_eq_registerItem hfunctions,
      registrationOrder, after_append, toCheck_bind, run_bind]
    simp only [toCheck_forM]
    rfl
  exact hends

end Registering

namespace Check

variable (hp : p.Unordered) (options : Options)

lemma registered_does (env : Env) :
    Outline.Does env.program.Complete 0 (outline {}) (registered env []).outline := by
  have hvisits := visits_fulfil env fun c hc s => stmt_meets hc s
  obtain ⟨-, _, rfl, hdoes⟩ := meets_performing_iff.mp (toCheck_meets hvisits
    (registerDeclarations_checks (B := env.program.StmtEnds) env.program.items (outline {}))
    rfl)
  exact hdoes

include hp

lemma registered_settled :
    (registered ⟨p, options⟩ []).Settled p (registered ⟨p, options⟩ []).symbols.size := by
  have hdoes := registered_does ⟨p, options⟩
  have hstart : p.Complete (outline {}).declared := by
    intro id hid
    simp [outline] at hid
  have hdeclared {x : StmtId} (hx : x ∈ p.items) :
      x ∈ (registered ⟨p, options⟩ []).outline.declared := by
    refine registered_declares ⟨p, options⟩ [] hx ?_
    have hkind := hp.declarations hx
    cases hstmt : (p.stmt x).kind with
    | record | enum => exact .inl (by simp [isType, hstmt, typeSymbol?])
    | function => exact .inr (by simp [isFunction, hstmt])
    | _ => simp [hstmt, isDeclaration] at hkind
  obtain ⟨s, hs, heq⟩ := registered_eq_after ⟨p, options⟩ hp.distinctTypes
  rw [heq] at hdoes hdeclared ⊢
  obtain ⟨hready, htouches⟩ := after_touches
    (registerItem_confined ⟨p, options⟩ s.symbols.size p.registrationOrder) hs.ready le_rfl
  refine ⟨hready.coherent, hdoes.stays hstart, hdeclared, fun _ => hready.plain _,
    fun {x id symbol} hx hnested hfound => ?_⟩
  -- Registering declares items and their methods only.
  have hnot : ¬(Footprint.all (p.footprint s.symbolOf) p.registrationOrder).declares id := by
    rintro ⟨y, hy, hmethod | ⟨-, rfl⟩⟩
    · exact hp.nested_not_method hnested (p.registrationOrder_perm.mem_iff.mp hy) hmethod
    · exact hp.nested_not_item hnested (p.registrationOrder_perm.mem_iff.mp hy)
  rw [htouches.declarations hnot] at hfound
  have hitem := hs.declared.mp (isSome_iff_exists.mpr ⟨symbol, hfound⟩)
  exact absurd hitem.1 (hp.nested_not_item hnested)

end Check

def Region.inside (p : Program) (x : StmtId) : Region where
  values _ := True
  declared := ReflTransGen p.StmtEdge x
  full _ := True

lemma Region.Matches.restrict {r : Region} {π : SymbolPairs}
    (h : whole.Matches π s t) : r.Matches π s t :=
  { h with
    symbols := fun hij => transfer (h.symbols hij) (fun _ => trivial) (h.plain hij)
      (holds_of_forall (fun _ _ h => h) _)
    values := fun _ => h.values trivial
    declarations := fun _ => h.declarations trivial }

namespace Check

variable {options : Options} {π : SymbolPairs} {x : StmtId}

lemma stmt_alike (options : Options) (items : List StmtId) (h : (inside p x).Matches π s t) (hs : s.Coherent) :
    let s' := ((stmt ⟨p, options⟩ x).run s).2
    let t' := ((stmt ⟨p.inOrder items, options⟩ x).run t).2
    s.Precedes s' ∧ t.Precedes t' ∧ s.diagnosticsTo s' = t.diagnosticsTo t' ∧
      Forall₂ (fun a b => a.1 = b.1 ∧ a.2.text = b.2.text) (s.typesTo s') (t.typesTo t') := by
  intro s' t'
  let m := (inside p x).mirror (π.openAt s.symbols.size t.symbols.size)
  have hm : m.Reflects p := ⟨fun _ => rfl, fun _ => trivial, fun _ => trivial, fun _ _ => trivial⟩
  let T : StmtTwins m ⟨p, options⟩ ⟨p.inOrder items, options⟩ := .same hm items (.refl options)
      (fun span hab => conditionReports_eq (fun _ _ h => h) (fun h => h) hab _ span)
      (ReflTransGen p.StmtEdge x) (fun hid hpart => hid.tail hpart) (fun hid => hid)
      fun _ _ => .inl trivial
  have hstmt : T.stmts Eq x := ⟨fun _ => rfl, .refl⟩
  have hruns := Mirror.stmt_runs T Mirror.steady_heeds mirror_context hstmt s t (h.states hs)
  obtain ⟨hprecedes, hprecedes', hsame, htypes⟩ := outputs_of_adds hruns.2.2
  exact ⟨hprecedes, hprecedes', hsame,
    htypes.imp fun a b hab => ⟨hab.1, hab.2.text_eq (fun _ _ h => h) fun h => h⟩⟩

end Check

lemma lookup_of_forall₂ {α β : Type} [BEq α] {R : β → β → Prop} {as bs : List (α × β)} {key : α}
    {a : β} (h : Forall₂ (fun a b => a.1 = b.1 ∧ R a.2 b.2) as bs) (ha : as.lookup key = some a) :
    ∃ b, bs.lookup key = some b ∧ R a b := by
  induction h with
  | nil => cases ha
  | @cons x y _ _ hxy _ ih =>
    rw [lookup_cons] at ha ⊢
    rw [← hxy.1]
    split at ha
    · obtain rfl := some.inj ha
      exact ⟨y.2, rfl, hxy.2⟩
    · exact ih ha

/-- Jobs that are done alike in two orders, as far as diagnostics go. -/
def Check.DoneAlike (job job' : StmtId → Check Unit) (xs ys : List StmtId) (s t : State) : Prop :=
  ∀ x u v, (x, u) ∈ starts job xs s → (x, v) ∈ starts job' ys t →
    u.Precedes ((job x).run u).2 ∧ v.Precedes ((job' x).run v).2 ∧
      u.diagnosticsTo ((job x).run u).2 = v.diagnosticsTo ((job' x).run v).2

namespace Check.DoneAlike

variable {job job' : StmtId → Check Unit} {xs ys : List StmtId}

lemma left (h : DoneAlike job job' xs ys s t) (hsub : ∀ x ∈ xs, x ∈ ys) :
    ∀ entry ∈ starts job xs s, entry.2.Precedes ((job entry.1).run entry.2).2 := by
  rintro ⟨x, u⟩ hu
  obtain ⟨v, hv⟩ := exists_start job' t (hsub x (mem_of_start hu))
  exact (h x u v hu hv).1

lemma right (h : DoneAlike job job' xs ys s t) (hsub : ∀ y ∈ ys, y ∈ xs) :
    ∀ entry ∈ starts job' ys t, entry.2.Precedes ((job' entry.1).run entry.2).2 := by
  rintro ⟨y, v⟩ hv
  obtain ⟨u, hu⟩ := exists_start job s (hsub y (mem_of_start hv))
  exact (h y u v hu hv).2.1

lemma diagnostics_perm (h : DoneAlike job job' xs ys s t) (hperm : xs.Perm ys) (hnodup : xs.Nodup)
    (hstart : s.diagnostics.entries.toList.Perm t.diagnostics.entries.toList) :
    (after job xs s).diagnostics.entries.toList.Perm (after job' ys t).diagnostics.entries.toList :=
  after_diagnostics_perm hperm hnodup (h.left fun _ => hperm.mem_iff.mp)
    (h.right fun _ => hperm.mem_iff.mpr) hstart fun x u v hu hv => (h x u v hu hv).2.2

end Check.DoneAlike

section Orders

variable (hp : p.Unordered) (hperm : items.Perm p.items) (options : Options) {ty : Ty} {x : StmtId}
  {e : ExprId}

lemma check_eq_after (env : Env) : check env.program env.options [] =
      ⟨(after (stmt env) env.program.items (registered env [])).diagnostics,
        (after (stmt env) env.program.items (registered env [])).types⟩ := by
  have hvisit : (fun x => (visitStmt x).toCheck (visits env)) = stmt env := by
    funext x
    exact Steps.bind_done _
  unfold check
  rw [program_eq_registration, run_bind, toCheck_forM, hvisit]
  rfl

include hp hperm

lemma registered_alike : (∃ π, whole.Matches π (registered ⟨p, options⟩ [])
        (registered ⟨p.inOrder items, options⟩ [])) ∧
      (registered ⟨p, options⟩ []).diagnostics.entries.toList.Perm
        (registered ⟨p.inOrder items, options⟩ []).diagnostics.entries.toList := by
  obtain ⟨s, hs, heq⟩ := registered_eq_after ⟨p, options⟩ hp.distinctTypes
  obtain ⟨t, ht, heq'⟩ :=
    registered_eq_after ⟨p.inOrder items, options⟩ (hp.inOrder hperm).distinctTypes
  rw [heq, heq']
  have ht : TypesRegistered p t :=
    { ht with declared := ht.declared.trans (and_congr_left' hperm.mem_iff) }
  have hxs := p.registrationOrder_perm
  have hys := (p.inOrder items).registrationOrder_perm.trans hperm
  refine ⟨⟨_, registers_whole hs ht hp hxs hys⟩, ?_⟩
  refine DoneAlike.diagnostics_perm (fun x u v hu hv => ?_) (hxs.trans hys.symm)
    (hxs.nodup_iff.mpr hp.items_nodup) (by rw [hs.diagnostics, ht.diagnostics])
  exact (JointStart.registers_alike hs ht ⟨x, u, v, hu, hv⟩ hp hxs hys).2

/-- Each item finds the same before it, whatever items were checked before. -/
lemma stmt_starts_alike {u v : State}
    (hu : (x, u) ∈ starts (stmt ⟨p, options⟩) p.items (registered ⟨p, options⟩ []))
    (hv : (x, v) ∈ starts (stmt ⟨p.inOrder items, options⟩) items
      (registered ⟨p.inOrder items, options⟩ [])) : (∃ π, (inside p x).Matches π u v) ∧
      u.Settled p (registered ⟨p, options⟩ []).symbols.size := by
  obtain ⟨⟨π, hwhole⟩, -⟩ := registered_alike hp hperm options
  have hq := hp.inOrder hperm
  obtain ⟨hsettled, htouches⟩ := start_touches hp.items_nodup
    (registered_settled hp options) (stmt_confined hp options fun _ h => h) le_rfl hu
  obtain ⟨-, htouches'⟩ := start_touches hq.items_nodup (registered_settled hq options)
    (stmt_confined hq options fun _ h => h) le_rfl hv
  have hx : x ∈ p.items := mem_of_start hu
  have hspared {zs : List StmtId} (hzs : zs.Perm p.items) {y : StmtId} (hy : y ∈ zs.erase x) :
      (inside p x).Spared π (p.checkFootprint y) ((p.inOrder items).checkFootprint y) := by
    obtain ⟨hne, hy⟩ := (hzs.nodup_iff.mpr hp.items_nodup).mem_erase_iff.mp hy
    have hnot {id : StmtId} (hid : ReflTransGen p.StmtEdge x id) : ¬ReflTransGen p.StmtEdge y id :=
      fun hid' => hne (hp.eq_of_below (hzs.mem_iff.mp hy) hx hid' hid)
    exact ⟨fun _ _ => ⟨fun h => h, fun h => h⟩, fun _ => ⟨Multiset.notMem_zero _, Multiset.notMem_zero _⟩,
      fun hid => ⟨hnot hid, hnot hid⟩⟩
  refine ⟨⟨π, ?_⟩, hsettled⟩
  exact hwhole.restrict.frame htouches htouches' (fun i j hij => hwhole.within hij)
    (.all (fun _ hy => hspared (.refl _) hy) fun _ hy => hspared hperm hy)

lemma stmt_doneAlike : DoneAlike (stmt ⟨p, options⟩) (stmt ⟨p.inOrder items, options⟩) p.items items
      (registered ⟨p, options⟩ []) (registered ⟨p.inOrder items, options⟩ []) := by
  intro x u v hu hv
  obtain ⟨⟨π, hmatches⟩, hsettled⟩ := stmt_starts_alike hp hperm options hu hv
  obtain ⟨hprecedes, hprecedes', hsame, -⟩ := stmt_alike options items hmatches hsettled.coherent
  exact ⟨hprecedes, hprecedes', hsame⟩

omit hp hperm in
lemma registered_types (env : Env) : (registered env []).types.log = [] := by
  have hdoes := registered_does env
  have hcomplete : env.program.Complete (outline {}).declared := by
    intro id hid
    simp [outline] at hid
  simpa [outline] using hdoes.recorded hcomplete

omit hperm in
lemma mem_stmtTree_of_typesTo {u : State} {n : Nat} (hx : x ∈ p.items) (hu : u.Settled p n)
    (hprecedes : u.Precedes ((stmt ⟨p, options⟩ x).run u).2)
    (h : (u.typesTo ((stmt ⟨p, options⟩ x).run u).2).lookup e = some ty) :
    e ∈ p.stmtTree x := by
  have hrecorded := (stmt_does hp options hx u).recorded hu.complete
  simp only [outline, hprecedes.types, map_append, ← Multiset.coe_add] at hrecorded
  rw [← add_right_cancel hrecorded]
  exact Multiset.mem_coe.mpr (mem_map_of_mem (mem_of_lookup_eq_some h))

omit hperm in
lemma eq_of_mem_stmtTree {y : StmtId} (hx : x ∈ p.items) (hy : y ∈ p.items)
    (he : e ∈ p.stmtTree x) (he' : e ∈ p.stmtTree y) : x = y := by
  have hends {z : StmtId} (hz : z ∈ p.items) : p.StmtEnds z := (hp.singleUse.acyclicStmt hz).ends
  have hedge {a b : StmtId} (hab : ReflTransGen p.StmtPart a b) : ReflTransGen p.StmtEdge a b :=
    .mono (fun c d hcd => (p.stmtParts_sublist c).subset hcd) _ _ hab
  obtain ⟨part, hpart, hholds⟩ := (hends hx).mem_stmtTree.mp he
  obtain ⟨part', hpart', hholds'⟩ := (hends hy).mem_stmtTree.mp he'
  obtain rfl := hp.singleUse.eq_of_holds hholds hholds'
  exact hp.eq_of_below hx hy (hedge hpart) (hedge hpart')

lemma check_types_inOrder (h : (check p options []).types.get? e = some ty) :
    ∃ ty', (check (p.inOrder items) options []).types.get? e = some ty' ∧ ty.text = ty'.text := by
  have hdone := stmt_doneAlike hp hperm options
  have hleft := hdone.left fun _ => hperm.mem_iff.mpr
  have hright := hdone.right fun _ => hperm.mem_iff.mp
  rw [check_eq_after ⟨p, options⟩] at h
  rw [check_eq_after ⟨p.inOrder items, options⟩]
  rcases lookup_after hleft h with h | ⟨⟨x, u⟩, hu, hfound⟩
  · rw [registered_types] at h
    cases h
  obtain ⟨v, hv⟩ := exists_start (stmt ⟨p.inOrder items, options⟩)
    (registered ⟨p.inOrder items, options⟩ []) (hperm.mem_iff.mpr (mem_of_start hu))
  obtain ⟨⟨π, hmatches⟩, hsettled⟩ := stmt_starts_alike hp hperm options hu hv
  obtain ⟨hprecedes, hprecedes', -, htypes⟩ := stmt_alike options items hmatches hsettled.coherent
  obtain ⟨ty', hfound', htext⟩ := lookup_of_forall₂ (R := fun a b => a.text = b.text) htypes hfound
  have hsome := isSome_lookup_after hright (.inr ⟨(x, v), hv, isSome_iff_exists.mpr ⟨_, hfound'⟩⟩)
  obtain ⟨final, hfinal⟩ := isSome_iff_exists.mp hsome
  refine ⟨final, hfinal, htext.trans ?_⟩
  -- The other order recorded the expression with the same item, for it is in no other one.
  rcases lookup_after hright hfinal with h | ⟨⟨y, w⟩, hw, hother⟩
  · rw [registered_types] at h
    cases h
  have hq := hp.inOrder hperm
  obtain ⟨hsettled', -⟩ := start_touches hq.items_nodup (registered_settled hq options)
    (stmt_confined hq options fun _ h => h) le_rfl hw
  have hy := mem_of_start hw
  have hxy : x = y := eq_of_mem_stmtTree hp (mem_of_start hu) (hperm.mem_iff.mp hy)
    (mem_stmtTree_of_typesTo hp options (mem_of_start hu) hsettled hprecedes hfound)
    (mem_stmtTree_of_typesTo hq options hy hsettled' (hright _ hw) hother)
  subst hxy
  obtain rfl := starts_unique hq.items_nodup hv hw
  rw [some.inj (hfound'.symm.trans hother)]

end Orders

/-- The order of declarations makes no difference. If the items declare types and functions, nothing is
referred to twice, all names at top level are different and results are written, then in every order of
the items the same diagnostics are reported, up to order, and the same types are recorded. -/
theorem check_permuted_declarations (p : Program) (hp : p.Unordered) (options : Options)
    (items : List StmtId) (hperm : items.Perm p.items) :
    (check (p.inOrder items) options []).diagnostics.entries.toList.Perm
        (check p options []).diagnostics.entries.toList ∧
      ∀ e, ((check (p.inOrder items) options []).types.get? e).map Ty.text =
        ((check p options []).types.get? e).map Ty.text := by
  constructor
  · rw [check_eq_after ⟨p, options⟩, check_eq_after ⟨p.inOrder items, options⟩]
    exact ((stmt_doneAlike hp hperm options).diagnostics_perm hperm.symm hp.items_nodup
      (registered_alike hp hperm options).2).symm
  · intro e
    cases hfound : (check p options []).types.get? e with
    | some ty =>
      obtain ⟨ty', hfound', htext⟩ := check_types_inOrder hp hperm options hfound
      rw [hfound', map_some, map_some, htext]
    | none =>
      cases hfound' : (check (p.inOrder items) options []).types.get? e with
      | none => rfl
      | some ty =>
        have hsymm : p.items.Perm (p.inOrder items).items := hperm.symm
        obtain ⟨ty', hback, -⟩ := check_types_inOrder (hp.inOrder hperm) hsymm options hfound'
        rw [show (p.inOrder items).inOrder p.items = p from rfl, hfound] at hback
        cases hback

/-- An enum, a function that takes it, and a struct whose method calls the function. Both functions
return what does not fit. -/
def reorderSample : Program where
  expressions := #[⟨{}, .name "c"⟩, ⟨{}, .name "paint"⟩, ⟨{}, .name "Red"⟩,
    ⟨{}, .call ⟨1⟩ [{ kind := .positional, value := ⟨2⟩ }]⟩]
  statements := #[
    ⟨{}, .enum { name := ⟨"Color", {}⟩, variants := [{ name := "Red" }, { name := "Green" }] }⟩,
    ⟨{}, .ret (some ⟨0⟩)⟩,
    ⟨{}, .function { name := ⟨"paint", {}⟩, params := [{ name := "c", type := some (.named {} "Color" []) }],
                     result := some (.named {} "i32" []), body := { statements := [⟨1⟩] } }⟩,
    ⟨{}, .ret (some ⟨3⟩)⟩,
    ⟨{}, .function { name := ⟨"get", {}⟩, result := some (.named {} "Color" []),
                     body := { statements := [⟨3⟩] } }⟩,
    ⟨{}, .record .structType { name := ⟨"Box", {}⟩, methods := [⟨4⟩] }⟩]
  items := [⟨0⟩, ⟨2⟩, ⟨5⟩]

lemma reorderSample_unordered : reorderSample.Unordered where
  singleUse := ⟨by decide, by decide⟩
  declarations {x} := by
    revert x
    decide
  typeNames := by decide
  valueNames := by decide
  results {x decl} hx hdecl := by
    have hall : reorderSample.items ++ reorderSample.items.flatMap reorderSample.methodsOf =
        [⟨0⟩, ⟨2⟩, ⟨5⟩, ⟨4⟩] := by decide
    have hmem : x ∈ [⟨0⟩, ⟨2⟩, ⟨5⟩, (⟨4⟩ : StmtId)] := by
      rw [← hall, mem_append, mem_flatMap]
      exact hx
    simp only [mem_cons, not_mem_nil, or_false] at hmem
    obtain rfl | rfl | rfl | rfl := hmem <;> cases hdecl <;> rfl

theorem check_permuted_declarations_sample :
    reorderSample.Unordered ∧ [⟨5⟩, ⟨2⟩, ⟨0⟩].Perm reorderSample.items ∧
      (check reorderSample {} []).diagnostics.codes = ["E2101", "E2101"] ∧
      (check (reorderSample.inOrder [⟨5⟩, ⟨2⟩, ⟨0⟩]) {} []).diagnostics.entries.toList.Perm
        (check reorderSample {} []).diagnostics.entries.toList ∧
      ∀ e, ((check (reorderSample.inOrder [⟨5⟩, ⟨2⟩, ⟨0⟩]) {} []).types.get? e).map Ty.text =
        ((check reorderSample {} []).types.get? e).map Ty.text :=
  ⟨reorderSample_unordered, by decide, by decide +kernel,
    check_permuted_declarations _ reorderSample_unordered {} _ (by decide)⟩

end StaticTyping
