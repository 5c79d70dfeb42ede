import StaticTyping.Proofs.Mirror.Stmt

/-! Whole programs side by side. -/

namespace StaticTyping

open Check

def Report.places (r : Report) : List (Code × Option Span) :=
  r.diagnostics.entries.toList.map fun d => (d.code, d.span)

lemma conditionReports_places {m : Pairing} {x y : Ty} (h : x.Mirrors m y) (policy : ConditionPolicy)
    (span : Span) : (conditionReports policy x span).map (fun d => (d.code, d.span)) =
      (conditionReports policy y span).map fun d => (d.code, d.span) := by
  unfold conditionReports
  rw [h.acceptsCondition]
  split <;> rfl

namespace Mirror

open Rule

variable {m : Mirror} {env env' : Env} (T : StmtTwins m env env') {E : TypeExpr → TypeExpr → Prop}
  {c : Names} {cs : List Names} {v w : Visits}

lemma States.start (hc : m.Context c) (hsymbols : ∀ k, m.symbols ⟨k⟩ ⟨k⟩)
    (hknown : ∀ id, ¬m.known id) : m.States E [c] {} {} where
  symbols _ := ⟨rfl, fun _ => rfl, fun _ => rfl, rfl, .none, .nil, rfl, rfl, rfl, .nil, fun _ => .nil,
    .none, .nil, fun _ => .nil, .none⟩
  bound _ := by simp [SymbolTable.size]
  next k := hsymbols _
  owners h := by simp [SymbolTable.get, SymbolTable.get?] at h
  noted h := by simp at h
  scopes := .root hc (.empty _ _ c)
  contexts := .nil
  declarations _ := .none
  known h := absurd h (hknown _)

lemma declareImport_agrees {binding : Ident} (hname : m.values binding.name) :
    m.Rules v w E cs (declareImport binding) (declareImport binding) Both :=
  introduce_agrees (valueSymbol_mirrors _ _ _ _ _ .unknown) rfl rfl (.inl hname)

section Program

variable (hE : ∀ {c}, m.Context c → m.Heeds E c) (hc : m.Context c)
  (hitems : env.program.items = env'.program.items) (hstmts : ∀ id ∈ env.program.items, T.stmts c id)
  (htargets : ∀ id ∈ env.program.items, Targets E env.program env'.program id) {imports : List Ident}
  (himports : ∀ binding ∈ imports, m.values binding.name)

include T hE hc hitems hstmts htargets himports

lemma registration_runs :
    m.Runs (m.States E [c]) (m.States E [c]) (registration env imports)
      (registration env' imports) Both := by
  have hwhole : m.Agrees (visits env) (visits env') (m.States E [c])
      (do imports.forM declareImport
          registerDeclarations env.program env.program.items)
      (do imports.forM declareImport
          registerDeclarations env'.program env'.program.items) Both := by
    refine .andThen (.forM (pairedSelf imports) ?_) fun _ _ => ?_
    · rintro binding _ ⟨rfl, hbinding⟩
      exact declareImport_agrees (himports binding hbinding)
    rw [← hitems]
    exact registerDeclarations_agrees (fun hc => (visited T hE).expands hc)
      (fun id hid => T.registers (hstmts id hid)) hc htargets
  exact hwhole

lemma program_runs :
    m.Runs (m.States E [c]) (m.States E [c]) (program env imports) (program env' imports)
      Both := by
  rw [program_eq_registration, program_eq_registration, ← hitems]
  refine (registration_runs T hE hc hitems hstmts htargets himports).bind fun _ _ _ => ?_
  exact (visited T hE).statements hc hstmts

lemma registered_states (hsymbols : ∀ k, m.symbols ⟨k⟩ ⟨k⟩) (hknown : ∀ id, ¬m.known id) :
    m.States E [c] (registered env imports) (registered env' imports) :=
  (registration_runs T hE hc hitems hstmts htargets himports _ _ (.start hc hsymbols hknown)).2.1

end Program

lemma check_mirrors (hE : ∀ {c}, m.Context c → m.Heeds E c) (hc : m.Context c)
    (hsymbols : ∀ k, m.symbols ⟨k⟩ ⟨k⟩) (hknown : ∀ id, ¬m.known id)
    (hitems : env.program.items = env'.program.items)
    (hstmts : ∀ id ∈ env.program.items, T.stmts c id)
    (htargets : ∀ id ∈ env.program.items, Targets E env.program env'.program id)
    {imports : List Ident} (himports : ∀ binding ∈ imports, m.values binding.name) :
    m.output (check env.program env.options imports).diagnostics.entries.toList
        (check env'.program env'.options imports).diagnostics.entries.toList ∧
      List.Forall₂ (fun x y => x.1 = y.1 ∧ x.2.Mirrors m y.2)
        (check env.program env.options imports).types.log
        (check env'.program env'.options imports).types.log := by
  obtain ⟨-, -, ⟨ds, es, hds, hes, hout⟩, xs, ys, hxs, hys, htypes⟩ :=
    program_runs T hE hc hitems hstmts htargets himports _ _ (.start hc hsymbols hknown)
  rw [show (check env.program env.options imports).diagnostics.entries.toList = ds from hds,
    show (check env'.program env'.options imports).diagnostics.entries.toList = es from hes]
  refine ⟨hout, ?_⟩
  rw [List.append_nil] at hxs hys
  rw [show (check env.program env.options imports).types.log = xs from hxs,
    show (check env'.program env'.options imports).types.log = ys from hys]
  exact htypes

end Mirror

end StaticTyping
