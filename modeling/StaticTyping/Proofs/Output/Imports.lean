import StaticTyping.Proofs.Order.Pairs

/-! Imports that nothing refers to. Such an import only shifts the symbols of all that is declared after
it, so that a run with it goes side by side with a run without it. -/

namespace StaticTyping

open Rule SymbolTable Mirror List Check StaticTyping.Frame

def Ident.importSymbol (binding : Ident) : Symbol :=
  { name := binding.name, kind := .value, span := binding.span, ty := some .unknown, isConst := true }

/-- So far nothing but imports was declared, under names as `names` says. -/
structure State.Imported (names : String → Prop) (s : State) : Prop where
  symbols {id : SymbolId} : id.index < s.symbols.size →
    ∃ binding : Ident, s.symbols.get id = binding.importSymbol
  values {name : String} {id : SymbolId} : s.scopes.inner.values.lookup name = some id →
    names name ∧ id.index < s.symbols.size
  types : s.scopes.inner.types = []
  narrowed : s.scopes.inner.narrowed = []
  root : s.scopes.outer = []
  contexts : s.contexts = []
  declarations : s.declarations = []

def State.allocating (s : State) (binding : Ident) : State :=
  { s with symbols := (s.symbols.alloc binding.importSymbol).2 }

/-- The state once a name is imported that was not declared before. -/
def State.importing (s : State) (binding : Ident) : State := { s.allocating binding with
    scopes := { s.scopes with
      inner := { s.scopes.inner.forget binding.name with
        values := (binding.name, ⟨s.symbols.size⟩) :: s.scopes.inner.values } } }

variable {binding : Ident} {bindings : List Ident} {names : String → Prop}

lemma Rule.declareImport_ends {visits : Visits} {s : State} {Q : Unit → State → Prop}
    (hfree : s.scopes.inner.values.lookup binding.name = none → Q () (s.importing binding))
    (htaken : ∀ id finding, s.scopes.inner.values.lookup binding.name = some id →
      Q () ((s.allocating binding).reporting finding binding.span)) :
    Ends visits (declareImport binding) s Q := by
  refine .act (.allocate binding.importSymbol) (t := s.allocating binding) rfl ?_
  cases hlookup : s.scopes.inner.values.lookup binding.name with
  | none =>
    have hstep : (Action.declareValue binding.name ⟨s.symbols.size⟩).step (s.allocating binding) =
        (none, s.importing binding) := by
      simp only [Action.step, ScopeStack.declareValue, State.allocating, hlookup]
      rfl
    exact .act (.declareValue binding.name _) hstep (hfree hlookup)
  | some id =>
    have hstep : (Action.declareValue binding.name ⟨s.symbols.size⟩).step (s.allocating binding) =
        (some id, s.allocating binding) := by
      simp only [Action.step, ScopeStack.declareValue, State.allocating, hlookup]
    exact .act (.declareValue binding.name _) hstep (htaken id _ hlookup)

namespace State.Imported

variable {names : String → Prop} {visits : Visits} {s : State} {binding : Ident}

lemma start : ({} : State).Imported names where
  symbols h := absurd h (Nat.not_lt_zero _)
  values h := by simp at h
  types := rfl
  narrowed := rfl
  root := rfl
  contexts := rfl
  declarations := rfl

lemma allocating (h : s.Imported names) (binding : Ident) :
    (s.allocating binding).Imported names where
  __ := h
  symbols {id} hid := by
    simp only [State.allocating, size_alloc] at hid ⊢
    by_cases hlast : id.index = s.symbols.size
    · obtain rfl : id = ⟨s.symbols.size⟩ := congrArg SymbolId.mk hlast
      exact ⟨binding, get_alloc_new _ _⟩
    · rw [get_alloc_of_ne _ _ hlast]
      exact h.symbols (by omega)
  values hid := by
    obtain ⟨hname, hbound⟩ := h.values hid
    simp only [State.allocating, size_alloc]
    exact ⟨hname, by omega⟩

lemma importing (h : s.Imported names) (hname : names binding.name) :
    (s.importing binding).Imported names :=
  { h.allocating binding with
    values := fun {name id} hid => by
      simp only [State.importing, lookup_cons] at hid
      split at hid
      · next heq =>
        obtain rfl := Option.some.inj hid
        rw [eq_of_beq heq]
        exact ⟨hname, by simp [State.importing, State.allocating, size_alloc]⟩
      · exact (h.allocating binding).values hid
    narrowed := by simp [State.importing, forget, h.narrowed] }

lemma imports (hnames : ∀ binding ∈ bindings, names binding.name) :
    Keeps visits (State.Imported names) (bindings.forM declareImport) :=
  .forM_zero fun binding hbinding => Keeps.of_ends fun _ hs =>
    declareImport_ends (fun _ => hs.importing (hnames binding hbinding)) fun _ _ _ =>
      { hs.allocating binding with }

end State.Imported

def SymbolPairs.self (n : Nat) : SymbolPairs where
  holds i j := i = j ∧ i.index < n
  unique := ⟨fun _ _ _ h h' => h.1.trans h'.1.symm, fun _ _ _ h h' => h.1.symm.trans h'.1⟩

def Region.without (name : String) : Region where
  values other := other ≠ name
  declared _ := True
  full _ := True

lemma State.Imported.matches_importing {s : State} (h : s.Imported names) (binding : Ident) :
    (Region.without binding.name).Matches (.self s.symbols.size) s (s.importing binding) where
  within := by
    rintro i _ ⟨rfl, hi⟩
    simp only [State.importing, State.allocating, size_alloc]
    exact ⟨hi, by omega⟩
  plain := by
    rintro i _ ⟨rfl, hi⟩
    obtain ⟨other, hother⟩ := h.symbols hi
    rw [hother]
    rfl
  symbols := by
    rintro i _ ⟨rfl, hi⟩
    simp only [State.importing, State.allocating, get_alloc_of_ne _ _ (Nat.ne_of_lt hi)]
    obtain ⟨other, hother⟩ := h.symbols hi
    rw [hother]
    exact valueSymbol_mirrors other.name other.span false true false .unknown
  root := ⟨h.root, h.root⟩
  values {name} hname := by
    simp only [State.importing, lookup_cons, beq_false_of_ne hname]
    cases hlookup : s.scopes.inner.values.lookup name with
    | none => exact .none
    | some id => exact .some ⟨rfl, (h.values hlookup).2⟩
  calm name := by simp [State.importing, forget, h.narrowed]
  types name := by
    simp only [State.importing, forget, h.types]
    exact .none
  contexts := ⟨h.contexts, h.contexts⟩
  declarations _ := by
    simp only [State.importing, State.allocating, h.declarations]
    exact .none

namespace Check

def imported (env : Env) (bindings : List Ident) : State :=
  ((toCheck (visits env) (bindings.forM declareImport)).run {}).2

lemma imported_append (env : Env) (before after : List Ident) : imported env (before ++ after) =
      ((toCheck (visits env) (after.forM declareImport)).run (imported env before)).2 := by
  have hloop : (before ++ after).forM declareImport =
      before.forM declareImport >>= fun _ => after.forM declareImport := forM_append
  rw [imported, hloop, toCheck_bind, run_bind]
  rfl

lemma imported_imported (env : Env)
    (hnames : ∀ binding ∈ bindings, names binding.name) : (imported env bindings).Imported names :=
  (State.Imported.imports hnames).ends .start

lemma imported_last (env : Env) {before : List Ident}
    (h : ∀ other ∈ before, other.name ≠ binding.name) :
    imported env (before ++ [binding]) = (imported env before).importing binding := by
  have hfree : (imported env before).scopes.inner.values.lookup binding.name = none :=
    Option.eq_none_iff_forall_ne_some.mpr fun id hid => by
      have himported : (imported env before).Imported (· ≠ binding.name) := imported_imported env h
      exact (himported.values hid).1 rfl
  have hends : Ends (visits env) ([binding].forM declareImport) (imported env before)
      fun _ t => t = (imported env before).importing binding := by
    refine .bind (declareImport_ends
      (Q := fun _ t => t = (imported env before).importing binding) (fun _ => rfl) ?_) ?_
    · intro id _ hid
      rw [hfree] at hid
      cases hid
    · exact fun _ _ ht => .pure ht
  rw [imported_append]
  exact hends

lemma imported_coherent (env : Env) (bindings : List Ident) : (imported env bindings).Coherent := by
  have hstart : State.Coherent {} := .start identity_context (fun _ => rfl) fun _ h => h
  have hloop : (identity (fun _ => False) .any).Agrees (visits env) (visits env)
      ((identity (fun _ => False) .any).States (identity (fun _ => False) .any).Steady [Eq])
      (bindings.forM declareImport) (bindings.forM declareImport) Both := by
    refine Leads.forM (pairedSelf bindings) ?_
    rintro binding _ ⟨rfl, -⟩
    exact declareImport_agrees trivial
  exact (hloop _ _ hstart).2.1

lemma program_run_append (env : Env) (before after : List Ident) :
    ((program env (before ++ after)).run {}).2 = ((program env after).run (imported env before)).2 := by
  have hloop : (before ++ after).forM declareImport =
      before.forM declareImport >>= fun _ => after.forM declareImport := forM_append
  have hprogram : program env (before ++ after) =
      toCheck (visits env) (before.forM declareImport) >>= fun _ => program env after := by
    unfold program Rule.program
    rw [hloop]
    simp only [bind_assoc, toCheck_bind]
    rfl
  rw [hprogram, run_bind]
  rfl

end Check

def StmtTwins.without {p : Program} {name : String} (h : ¬p.NamesValue name) (options : Options)
    (π : SymbolPairs) :
    StmtTwins ((Region.without name).mirror π) ⟨p, options⟩ ⟨p, options⟩ :=
  have hvalues : ∀ {other : String}, p.NamesValue other → other ≠ name := by
    rintro _ hother rfl
    exact h hother
  .same ⟨fun _ => rfl, hvalues, fun _ => trivial, fun _ _ => trivial⟩ p.items (.refl options)
    (fun span hab => conditionReports_eq (fun _ _ h => h) (fun h => h) hab _ span) (fun _ => True)
    (fun _ _ => trivial) (fun _ => trivial) fun _ _ => .inl trivial

/-- An import of a name that neither the program nor another import uses goes unnoticed, wherever it
stands among the imports. -/
theorem check_unusedImport (p : Program) (options : Options) (before after : List Ident)
    (binding : Ident) (hprogram : ¬p.NamesValue binding.name)
    (himports : ∀ other ∈ before ++ after, other.name ≠ binding.name) :
    (check p options (before ++ binding :: after)).diagnostics =
        (check p options (before ++ after)).diagnostics ∧
      (check p options (before ++ binding :: after)).types.log.map (fun entry => (entry.1, entry.2.text)) =
        (check p options (before ++ after)).types.log.map fun entry => (entry.1, entry.2.text) := by
  have hbefore : ∀ other ∈ before, other.name ≠ binding.name := fun other h =>
    himports other (mem_append_left _ h)
  have hafter : ∀ other ∈ after, (Region.without binding.name).values other.name := fun other h =>
    himports other (mem_append_right _ h)
  let s := imported ⟨p, options⟩ before
  have himported : s.Imported (· ≠ binding.name) := imported_imported ⟨p, options⟩ hbefore
  -- The two runs part when the name is imported, and go on together from there.
  obtain ⟨-, -, ⟨ds, es, hds, hes, rfl⟩, xs, ys, hxs, hys, htypes⟩ :=
    Mirror.program_runs (StmtTwins.without hprogram options _) Mirror.steady_heeds
      Region.mirror_context rfl (fun _ _ => ⟨fun _ => rfl, trivial⟩)
      (fun id _ a b ha hb => ⟨trivial, by cases ha.symm.trans hb; rfl, fun _ _ => .inr trivial⟩)
      hafter _ _ ((himported.matches_importing binding).states (imported_coherent _ before))
  have hwithout : ((Check.program ⟨p, options⟩ (before ++ after)).run {}).2 =
      ((Check.program ⟨p, options⟩ after).run s).2 := Check.program_run_append _ _ _
  have hwith : ((Check.program ⟨p, options⟩ (before ++ binding :: after)).run {}).2 =
      ((Check.program ⟨p, options⟩ after).run (s.importing binding)).2 := by
    rw [append_cons, program_run_append, imported_last _ hbefore]
  unfold check
  rw [hwith, hwithout]
  constructor
  · exact Diagnostics.ext_toList (hes.trans hds.symm)
  · have htexts : ys.map (fun entry => (entry.1, entry.2.text)) =
        xs.map fun entry => (entry.1, entry.2.text) := by
      rw [eq_comm, ← forall₂_eq_eq_eq, forall₂_map_left_iff, forall₂_map_right_iff]
      exact htypes.imp fun _ _ h => Prod.ext h.1 (h.2.text_eq (fun _ _ h => h) fun h => h)
    rw [hxs, hys, map_append, map_append, htexts]
    rfl

lemma Program.not_namesValue_of_nodes {p : Program} {name : String}
    (hexprs : ∀ e ∈ p.expressions.toList, name ∉ e.kind.ownNames)
    (hstmts : ∀ s ∈ p.statements.toList, name ∉ s.kind.ownNames) : ¬p.NamesValue name := by
  rintro (⟨id, hmem⟩ | ⟨id, hmem⟩)
  · obtain ⟨hlt, hmem⟩ := lt_size_of_mem_kids (fun e : Expr => e.kind.ownNames) rfl hmem
    exact hexprs _ (Array.getElem_mem_toList hlt) hmem
  · obtain ⟨hlt, hmem⟩ := lt_size_of_mem_kids (fun s : Stmt => s.kind.ownNames) rfl hmem
    exact hstmts _ (Array.getElem_mem_toList hlt) hmem

/-- A match that leaves out a variant, and a variant with the name of an import. -/
def importSample : Program where
  expressions := #[⟨{}, .name "off"⟩, ⟨{}, .name "light"⟩]
  statements := #[
    ⟨{}, .enum { name := ⟨"Light", {}⟩, variants := [{ name := "off" }, { name := "on" }] }⟩,
    ⟨{}, .bind { name := ⟨"light", {}⟩, value := some ⟨0⟩ }⟩,
    ⟨{}, .cases ⟨1⟩ [{ pattern := ⟨{}, .name "off"⟩, body := {} }]⟩]
  items := [⟨0⟩, ⟨1⟩, ⟨2⟩]

theorem check_unusedImport_sample :
    (¬importSample.NamesValue "lib" ∧ ∀ other ∈ [⟨"log", {}⟩] ++ [(⟨"on", {}⟩ : Ident)], other.name ≠ "lib") ∧
    (check importSample {} [⟨"log", {}⟩, ⟨"on", {}⟩]).diagnostics.entries.toList.map (·.code) =
      [.duplicateSymbol, .nonExhaustiveMatch] ∧
    (check importSample {} [⟨"log", {}⟩, ⟨"lib", {}⟩, ⟨"on", {}⟩]).diagnostics =
      (check importSample {} [⟨"log", {}⟩, ⟨"on", {}⟩]).diagnostics := by
  have hprogram : ¬importSample.NamesValue "lib" :=
    Program.not_namesValue_of_nodes (by decide) (by decide)
  have himports : ∀ other ∈ [⟨"log", {}⟩] ++ [(⟨"on", {}⟩ : Ident)], other.name ≠ "lib" := by decide
  exact ⟨⟨hprogram, himports⟩, by decide +kernel,
    (check_unusedImport importSample {} [⟨"log", {}⟩] [⟨"on", {}⟩] ⟨"lib", {}⟩ hprogram himports).1⟩

end StaticTyping
