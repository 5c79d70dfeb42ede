import StaticTyping.Proofs.Mirror.Declaration

/-! Declarations met in a block, side by side. They are registered where they stand. An alias is
expanded there and then, so that no other scope ever meets it without its type. -/

namespace StaticTyping

open Check Option SymbolTable

namespace Rule

variable {p : Program} {visits : Visits} {s : State} {id : StmtId}

def registerHere (p : Program) (id : StmtId) : Rule (Option SymbolId) := do
  match ← registerTypeName p id with
  | none => return none
  | some made =>
    populateType p id made
    return some made

lemma declareType_symbols (name : String) (i : SymbolId) (span : Span) :
    Ends visits (declareType name i span) s fun _ t => t.symbols = s.symbols := by
  unfold Ends
  cases h : s.scopes.inner.types.lookup name with
  | none =>
    rw [run_declareType_new visits span h]
    rfl
  | some other => rw [run_declareType_known visits span h]

lemma registerTypeName_symbols {symbol : Symbol}
    (hsymbol : (p.stmt id).kind.typeSymbol? = some symbol) :
    Ends visits (registerTypeName p id) s fun made t =>
      made = some ⟨s.symbols.size⟩ ∧ t.symbols = (s.symbols.alloc symbol).2 := by
  unfold registerTypeName
  simp only [hsymbol]
  refine .act (.allocate symbol) rfl ((declareType_symbols _ _ _).bind fun _ u hu => ?_)
  exact .act (.noteDeclaration id _) rfl (.pure ⟨rfl, hu⟩)

lemma registerHere_settles {decl : AliasDecl} (hkind : (p.stmt id).kind = .typeAlias decl)
    (hexpand : visits.expand = expand) :
    Ends visits (registerHere p id) s fun _ t => ∀ i, (t.symbols.get i).ty = none →
      (s.symbols.get i).ty = none ∧ (t.symbols.get i).aliasTarget = (s.symbols.get i).aliasTarget := by
  obtain ⟨symbol, hsymbol, htarget⟩ : ∃ symbol, (p.stmt id).kind.typeSymbol? = some symbol ∧
      symbol.aliasTarget = some decl.target := by
    rw [hkind]
    exact ⟨_, rfl, rfl⟩
  refine (registerTypeName_symbols hsymbol).bind ?_
  rintro _ t ⟨rfl, ht⟩
  have hexpanded : Ends visits (populateType p id ⟨s.symbols.size⟩) t fun _ u => t.Refines u ∧
      (u.symbols.get ⟨s.symbols.size⟩).ty ≠ none := by
    unfold populateType
    simp only [hkind]
    refine .act (.readSymbol _) rfl ((Ends.expand ?_).bind fun _ u hu => .pure hu)
    rw [hexpand]
    refine ⟨expand_refines _ _ _ _, expand_closes ?_ _ _⟩
    rw [ht, get_alloc_new, htarget]
    rfl
  refine hexpanded.bind ?_
  rintro _ u ⟨hrefines, hclosed⟩
  refine .pure fun i hi => ?_
  have hold : i.index ≠ s.symbols.size := by
    intro hi'
    obtain rfl : i = ⟨s.symbols.size⟩ := congrArg SymbolId.mk hi'
    exact hclosed hi
  have hsame : t.symbols.get i = s.symbols.get i := by
    rw [ht, get_alloc_of_ne _ _ hold]
  rw [hrefines.aliasTarget i, ← hsame]
  exact ⟨hrefines.open_of_open hi, rfl⟩

lemma ensureRegistered_fixes {kind : RecordKind} {decl : RecordDecl}
    (hkind : (p.stmt id).kind = .record kind decl)
    (hnoted : ∀ k, s.declarations.lookup id = some k → s.symbols.Fixes k) :
    Ends visits (ensureRegistered p id) s fun found t => ∀ i ∈ found, t.symbols.Fixes i := by
  refine .act (.declaredSymbol id) rfl ?_
  cases hfound : s.declarations.lookup id with
  | some known => exact .pure (by simpa using hnoted known hfound)
  | none =>
    simp only [hkind]
    refine (registerTypeName_fixes id).bind fun made t hmade => ?_
    cases made with
    | none => exact .pure (by simp)
    | some made =>
      exact (ends_fixes _ (hmade made rfl)).bind fun _ u hmade => .pure (by simpa using hmade)

end Rule

lemma Symbol.Mirrors.retarget {m : Mirror} {E E' : TypeExpr → TypeExpr → Prop} {full : Prop}
    {x y : Symbol} (h : x.Mirrors m E full y)
    (htarget : x.ty = none → ∀ t u, x.aliasTarget = some t → y.aliasTarget = some u → E' t u) :
    x.Mirrors m E' full y := by
  refine { h with target := ?_ }
  rcases rel_cases h.target with ⟨hx, hy⟩ | ⟨t, u, hx, hy, hname, -⟩
  · rw [hx, hy]
    exact .none
  · rw [hx, hy]
    exact .some ⟨hname, fun hty => htarget hty t u hx hy⟩

namespace Mirror

open Rule

variable {m : Mirror} {v w : Visits} {E E' : TypeExpr → TypeExpr → Prop} {c : Names}
  {cs : List Names} {p q : Program} {id : StmtId}

lemma States.retarget {s t : State} (h : m.States E cs s t)
    (htarget : ∀ i j, m.symbols i j → (s.symbols.get i).ty = none → ∀ x y,
      (s.symbols.get i).aliasTarget = some x → (t.symbols.get j).aliasTarget = some y → E' x y) :
    m.States E' cs s t :=
  { h with symbols := fun hij => (h.symbols hij).retarget (htarget _ _ hij) }

lemma States.open_right {s t : State} (h : m.States E cs s t) {i j : SymbolId}
    (hij : m.symbols i j) (hopen : (s.symbols.get i).ty = none) : (t.symbols.get j).ty = none := by
  have hsome := rel_isSome (h.symbols hij).ty
  rw [hopen] at hsome
  exact not_isSome_iff_eq_none.mp (by rw [← hsome]; simp)

lemma States.waits {s t : State} (h : m.States E cs s t) {i j : SymbolId} (hij : m.symbols i j)
    (hopen : (s.symbols.get i).ty = none) {x y : TypeExpr}
    (hx : (s.symbols.get i).aliasTarget = some x) (hy : (t.symbols.get j).aliasTarget = some y) :
    E x y := by
  have htarget := (h.symbols hij).target
  rw [hx, hy] at htarget
  cases htarget with
  | some h => exact h.2 hopen

lemma registerHere_agrees (hid : m.Registers c p q id) (htarget : Targets E p q id)
    (hpopulate : ∀ i j, m.symbols i j → m.Leads v w (m.Fixing E (c :: cs) i) (m.States E (c :: cs))
      (populateType p id i) (populateType q id j) Both) :
    m.Rules v w E (c :: cs) (registerHere p id) (registerHere q id) (Rel m.symbols) := by
  refine .bindWith (K := fun made s => ∀ i ∈ made, s.symbols.Fixes i)
    (registerTypeName_agrees hid htarget) (fun _ _ _ => registerTypeName_fixes id)
    fun made made' hmade => ?_
  cases hmade with
  | none => exact .assume (.pure .none) fun _ _ h => h.1
  | some hij =>
    refine .assume (P := m.Fixing E (c :: cs) _) ?_ fun _ _ h => ⟨h.1, h.2 _ rfl⟩
    exact .andThen (hpopulate _ _ hij) fun _ _ => .pure (.some hij)

lemma registerAlias_agrees (hid : m.Registers c p q id) {a b : AliasDecl}
    (ha : (p.stmt id).kind = .typeAlias a) (hb : (q.stmt id).kind = .typeAlias b)
    (hwaiting : m.waiting) (hE : m.Heeds E c) (hv : v.expand = expand)
    (hw : w.expand = expand) (hc : m.Context c) :
    m.Rules v w E (c :: cs) (registerHere p id) (registerHere q id) (Rel m.symbols) := by
  have htargets : a.target.Mirrors m c b.target := by
    have hkind := hid.kind
    rw [ha, hb] at hkind
    cases hkind with
    | typeAlias h => exact h.target
    | plain h => simp [StmtKind.isPlain] at h
  -- While the alias waits for its type, its targets are among those that may.
  let W : TypeExpr → TypeExpr → Prop := fun t u => E t u ∨ t.Mirrors m c u
  have hheeds : m.Heeds W c := by
    rintro t u (h | h)
    · exact hE t u h
    · exact ⟨hwaiting, h⟩
  have hrun : m.Rules v w W (c :: cs) (registerHere p id) (registerHere q id) (Rel m.symbols) := by
    refine registerHere_agrees hid ?_ fun i j hij => .assume ?_ fun _ _ h => h.1
    · intro a' b' ha' hb'
      rw [ha] at ha'
      rw [hb] at hb'
      cases ha'
      cases hb'
      exact .inr htargets
    · simp only [populateType, ha, hb]
      refine expandDeclared_agrees ⟨fun span cyclic hij => ?_, calm_of_expand hw⟩ hij
      rw [hv, hw]
      exact expand_runs hc hheeds hij span cyclic
  intro s t hst
  obtain ⟨hanswers, hstates, hadds⟩ := hrun s t (hst.retarget fun i j hij hopen x y hx hy =>
    .inl (hst.waits hij hopen hx hy))
  refine ⟨hanswers, hstates.retarget fun i j hij hopen x y hx hy => ?_, hadds⟩
  obtain ⟨hs, htarget⟩ := registerHere_settles (s := s) ha hv i hopen
  obtain ⟨-, htarget'⟩ := registerHere_settles (s := t) hb hw j (hstates.open_right hij hopen)
  exact hst.waits hij hs (htarget ▸ hx) (htarget' ▸ hy)

lemma ensureRegistered_agrees (hid : m.Registers c p q id)
    (halias : ∀ decl, (p.stmt id).kind = .typeAlias decl → m.waiting ∨ m.known id)
    (hE : ∀ {c}, m.Context c → m.Heeds E c) (hv : v.expand = expand)
    (hw : w.expand = expand) (hc : m.Context c) :
    m.Rules v w E (c :: cs) (ensureRegistered p id) (ensureRegistered q id) (Rel m.symbols) := by
  have hexpand : ∀ {c cs}, m.Context c → m.Expands v w (m.States E (c :: cs)) [] := by
    refine fun hc => ⟨fun span cyclic hij => ?_, calm_of_expand hw⟩
    rw [hv, hw]
    exact expand_runs hc (hE hc) hij span cyclic
  have hfound : m.Rules v w E (c :: cs) (perform (.declaredSymbol id))
      (perform (.declaredSymbol id))
      fun x y => Rel m.symbols x y ∧ (m.known id → x.isSome) :=
    read_agrees (fun _ => rfl) (fun _ => rfl) fun _ _ hst =>
      ⟨hst.declarations hid.declared, fun hknown => hst.known hknown⟩
  refine .bind hfound ?_
  rintro found found' ⟨hrel, hknown⟩
  cases hrel with
  | some hij => exact .pure (.some hij)
  | none =>
    have hhere (htarget : Targets E p q id) : m.Rules v w E (c :: cs)
        (registerHere p id) (registerHere q id) (Rel m.symbols) :=
      registerHere_agrees hid htarget fun i j hij => populateType_leads hid hexpand hc hij
    have hkind := hid.kind
    have hvalues := @hid.valueName
    generalize hk : (p.stmt id).kind = k at hkind hvalues
    generalize hl : (q.stmt id).kind = l at hkind
    have hother (hno : ∀ decl, k ≠ .typeAlias decl) : m.Rules v w E (c :: cs)
        (registerHere p id) (registerHere q id) (Rel m.symbols) :=
      hhere fun a _ ha _ => absurd (hk.symm.trans ha) (hno a)
    cases hkind with
    | function h =>
      exact .andPure (registerFunction_agrees hexpand hc hid.declared h (hvalues (.head _)))
        fun _ _ hij => .some hij
    | typeAlias h =>
      rcases halias _ hk with hwaiting | h
      · exact registerAlias_agrees hid hk hl hwaiting (hE hc) hv hw hc
      · exact absurd (hknown h) (by simp)
    | bind | record | enum => exact hother (by simp)
    | plain hplain =>
      cases k with
      | bind | function | record | enum | typeAlias => cases hplain
      | _ => exact hother (by simp)

end Mirror

end StaticTyping
