import StaticTyping.Proofs.Mirror.Pattern
import StaticTyping.Proofs.Patterns.Coverage

/-! A match on an enum reports the variants that it leaves out. Whatever is declared, narrowed or
matched in the bodies of its arms, each pattern is judged by what its names meant before the first arm.
-/

namespace StaticTyping

open Rule SymbolTable List Check Finding MatchSite

namespace SymbolTable

def enumOf? (table : SymbolTable) : Ty → Option SymbolId
  | .named head _ => head.symbol.filter fun id => (table.get id).kind == .enumType
  | _ => none

/-- The enums among the members of a type, or the type itself if it is one. -/
def enumsOf (table : SymbolTable) (ty : Ty) : List SymbolId :=
  ty.unionMembers.filterMap table.enumOf?

end SymbolTable

structure ArmReports where
  pattern : List Diagnostic
  body : List Diagnostic

def ArmReports.judgements (part : ArmReports) : List Code :=
  (part.pattern.map (·.code)).filter Code.judges

namespace Check

/-- What is reported on the arms of a match, from a state on. -/
def armReports (env : Env) (subject : Ty) (matched : Option MatchedEnum) :
    List MatchArm → State → List ArmReports
  | [], _ => []
  | arm :: rest, s =>
    let pattern := (checkPattern env.options arm.pattern subject matched).toCheck (visits env)
    let body := arm.body.statements.forM (stmt env)
    let inside : State := { s with scopes := s.scopes.push }
    let bound := (pattern.run inside).2
    let after := (body.run bound).2
    ⟨pattern.reports inside, body.reports bound⟩ ::
      armReports env subject matched rest { after with scopes := after.scopes.pop }

end Check

variable {enum : SymbolId}

namespace Rule

variable {visits : Visits} {s : State}

lemma run_enumOf?_fst (ty : Ty) (s : State) :
    (((enumOf? ty).toCheck visits).run s).1.map (·.1) = s.symbols.enumOf? ty := by
  cases ty with
  | named head args =>
    obtain ⟨name, symbol, aliasable⟩ := head
    cases symbol with
    | none => rfl
    | some id =>
      have hrun : (((enumOf? (.named ⟨name, some id, aliasable⟩ args)).toCheck visits).run s).1 =
          if (s.symbols.get id).kind == .enumType then some (id, args) else none := rfl
      rw [hrun]
      by_cases h : (s.symbols.get id).kind = .enumType <;>
        simp [SymbolTable.enumOf?, Option.filter, h]
  | _ => rfl

lemma run_subjectEnum (visits : Visits) {ty : Ty} (h : s.symbols.enumsOf ty = [enum]) :
    ∃ σ, ((subjectEnum ty).toCheck visits).run s = (some ⟨enum, σ⟩, s) := by
  let found := (ty.unionMembers.map fun member => (((enumOf? member).toCheck visits).run s).1)
  have hfst : (found.filterMap (·)).map (·.1) = [enum] := by
    rw [← h, enumsOf, map_filterMap, filterMap_map]
    exact congrArg (filterMap · _) (funext fun member => run_enumOf?_fst member s)
  obtain ⟨entry, hentry, hid⟩ := map_eq_singleton_iff.mp hfst
  obtain ⟨id, args⟩ := entry
  obtain rfl : id = enum := hid
  refine ⟨.ofArgs (s.symbols.get id).typeParams args, ?_⟩
  rw [subjectEnum, toCheck_bind, run_bind, run_enumsOf]
  rw [hentry]
  rfl

lemma run_symbols (ids : List SymbolId) (s : State) :
    ((ids.mapM symbol).toCheck visits).run s = (ids.map s.symbols.get, s) := by
  induction ids with
  | nil => rfl
  | cons id rest ih =>
    have hread : ((symbol id).toCheck visits).run s = (s.symbols.get id, s) := rfl
    rw [mapM_cons, toCheck_bind, run_bind, hread, toCheck_bind, run_bind, ih]
    rfl

lemma toList_reportIf (condition : Bool) (finding : Finding) (span : Span) (s : State) :
    (((reportIf condition finding span).toCheck visits).run s).2.diagnostics.entries.toList =
      s.diagnostics.entries.toList ++ if condition then [finding.toDiagnostic span] else [] := by
  cases condition with
  | false => exact (append_nil _).symm
  | true => exact Diagnostics.toList_push _ _

lemma toList_checkExhaustive (enum : SymbolId) (σ : Substitution) (patterns : List Coverage)
    (span : Span) (s : State) :
    let declared := s.symbols.get enum
    let left := Coverage.uncovered declared.variants patterns
    (((checkExhaustive (some ⟨enum, σ⟩) patterns span).toCheck visits).run s).2.diagnostics.entries.toList
      = s.diagnostics.entries.toList ++
        if left.isEmpty then [] else [(nonExhaustiveMatch declared.name
          (left.map fun variant => (s.symbols.get variant).name)).toDiagnostic span] := by
  intro declared left
  have hread : ((symbol enum).toCheck visits).run s = (declared, s) := rfl
  simp only [checkExhaustive, toCheck_bind, run_bind, hread, run_symbols, map_map,
    toList_reportIf, isEmpty_map]
  cases left.isEmpty <;> simp [left, Function.comp_def]

end Rule

variable {s : State}

namespace Check

variable {env : Env} {α : Type}

lemma forM_visitStmt (ids : List StmtId) :
    (ids.forM visitStmt).toCheck (visits env) = ids.forM (stmt env) := by
  induction ids with
  | nil => rfl
  | cons id rest ih =>
    have hvisit : (visitStmt id).toCheck (visits env) = stmt env id := Steps.bind_done _
    simp only [List.forM, toCheck_bind, hvisit, ih]

lemma forM_stmt_appends (ids : List StmtId) : (ids.forM (stmt env)).Appends := by
  induction ids with
  | nil => exact .pure ()
  | cons id rest ih => exact (stmtWithin_appends env _ id).bind fun _ => ih

lemma checkPattern_appends (options : Options) (pattern : Pattern) (subject : Ty)
    (matched : Option MatchedEnum) :
    ((checkPattern options pattern subject matched).toCheck (visits env)).Appends := by
  have hasks : Asks Action.Common (fun _ => False) (fun _ => False)
      (checkPattern options pattern subject matched) :=
    (asks_lenient fun _ h => h).pieces.checkPattern options pattern subject matched
  refine Appends.closed.handle (fun request hrequest => ?_) hasks.uses
  cases request with
  | act action =>
    refine .lift action ?_
    cases action with
    | diagnosticCount | hoist => exact hrequest.elim
    | _ => trivial
  | expr | stmt => exact hrequest.elim
  | expand active id span cyclic => exact expand_appends active id span cyclic

lemma run_inScope (x : Rule α) (s : State) :
    let r := (x.toCheck (visits env)).run { s with scopes := s.scopes.push }
    ((inScope x).toCheck (visits env)).run s =
      (r.1, { r.2 with scopes := r.2.scopes.pop }) := by
  simp only [inScope, toCheck_bind, run_bind]
  rfl

lemma run_checkArm (subject : Ty) (matched : Option MatchedEnum) (arm : MatchArm) (s : State) :
    let pattern := (checkPattern env.options arm.pattern subject matched).toCheck (visits env)
    let bound := pattern.run { s with scopes := s.scopes.push }
    let after := ((arm.body.statements.forM (stmt env)).run bound.2).2
    ((checkArm env subject matched arm).toCheck (visits env)).run s =
      (bound.1, { after with scopes := after.scopes.pop }) := by
  rw [checkArm, run_inScope]
  simp only [toCheck_bind, run_bind, forM_visitStmt]
  rfl

lemma sees_checkArm (hacyclic : env.program.Acyclic) (subject : Ty) (matched : Option MatchedEnum)
    (arm : MatchArm) (s : State) :
    s.Sees (((checkArm env subject matched arm).toCheck (visits env)).run s).2 := by
  have hspares : Spares env.program s.symbols.size (checkArm env subject matched arm) :=
    spares_lenient.pieces.scope ((spares_lenient.pieces.checkPattern _ _ _ _).after
      fun _ => (spares_lenient.walk.visitStmts fun _ _ => trivial).andPure)
  -- The arm has a scope of its own, around which are the scopes of the match.
  let inside : State := { s with scopes := s.scopes.push }
  let work : Rule Coverage := do
    let coverage ← checkPattern env.options arm.pattern subject matched
    arm.body.statements.forM visitStmt
    return coverage
  have hwork := ((checks_pieces.checkPattern env.options arm.pattern subject matched).after fun _ =>
    ((checkWalk _ _).visitStmts fun c _ => (hacyclic.stmt c).ends).andPure : Checks env.program
      env.program.StmtEnds _ work) inside.outline
  obtain ⟨-, _, rfl, hdoes⟩ := meets_performing_iff.mp
    (toCheck_meets (visits_fulfil env fun c hc s => stmt_meets hc s) hwork rfl)
  refine ⟨ScopeStack.lookupValue_of_keeps ?_, retains_of_spares hacyclic hspares⟩
  rw [checkArm, run_inScope]
  exact ScopeStack.keeps_pop hdoes.outer

lemma judgements_of_appends {x : Check α} (hx : x.Appends) (s : State) :
    (x.run s).2.judgements = s.judgements ++ ((x.reports s).map (·.code)).filter Code.judges := by
  rw [State.judgements, hx.toList_diagnostics, map_append, filter_append]
  rfl

section Arms

variable (site : MatchSite) (hoptions : site.options = env.options)
  (hsound : ∀ {name : String} {id : SymbolId},
    site.state.scopes.lookupValue name = some id → id ∈ site.state.symbols)
include hoptions hsound

/-- The pattern of an arm is judged as it would have been judged before the first arm. -/
lemma judges_arm (σ : Substitution) (pattern : Pattern) (hsees : site.state.Sees s) :
    Judges (visits env) { s with scopes := s.scopes.push }
      (checkPattern env.options pattern site.subject (some ⟨site.enum, σ⟩))
      (site.coverage pattern) (site.faults pattern) := by
  rw [← coverage_of_sees hsees.push hsound, ← faults_of_sees hsees.push hsound,
    ← hoptions]
  exact checkPattern_judges { site with state := { s with scopes := s.scopes.push } } σ pattern

/-- One arm after the other is checked, each pattern is answered with what it covers, and all that is
reported is reported on a pattern or in a body. -/
lemma run_arms (hacyclic : env.program.Acyclic) (σ : Substitution) (arms : List MatchArm)
    (hsees : site.state.Sees s) :
    let parts := armReports env site.subject (some ⟨site.enum, σ⟩) arms s
    let r := ((arms.mapM (checkArm env site.subject (some ⟨site.enum, σ⟩))).toCheck
      (visits env)).run s
    r.1 = arms.map (site.coverage ·.pattern) ∧ site.state.Sees r.2 ∧
      r.2.diagnostics.entries.toList = s.diagnostics.entries.toList ++
        parts.flatMap (fun part => part.pattern ++ part.body) ∧
      parts.map ArmReports.judgements = arms.map (site.faults ·.pattern) := by
  induction arms generalizing s with
  | nil => exact ⟨rfl, hsees, (append_nil _).symm, rfl⟩
  | cons arm rest ih =>
    let matched : Option MatchedEnum := some ⟨site.enum, σ⟩
    let pattern := (checkPattern env.options arm.pattern site.subject matched).toCheck (visits env)
    let body := arm.body.statements.forM (stmt env)
    let inside : State := { s with scopes := s.scopes.push }
    let bound := (pattern.run inside).2
    have hpattern : pattern.Appends := checkPattern_appends env.options arm.pattern site.subject matched
    have hbody : body.Appends := forM_stmt_appends arm.body.statements
    obtain ⟨hcoverage, hfaults⟩ := judges_arm site hoptions hsound σ arm.pattern hsees
    rw [judgements_of_appends hpattern] at hfaults
    have hfirst : (body.run bound).2.diagnostics.entries.toList = s.diagnostics.entries.toList ++
        (pattern.reports inside ++ body.reports bound) := by
      rw [hbody.toList_diagnostics, hpattern.toList_diagnostics, append_assoc]
    have hafter := hsees.trans (sees_checkArm hacyclic site.subject matched arm s)
    simp only [mapM_cons, toCheck_bind, run_bind]
    rw [run_checkArm] at hafter ⊢
    obtain ⟨hanswers, hlast, hdiagnostics, hparts⟩ := ih hafter
    refine ⟨congrArg₂ cons hcoverage hanswers, hlast, hdiagnostics.trans ?_,
      congrArg₂ cons (append_cancel_left hfaults) hparts⟩
    exact (congrArg (· ++ _) hfirst).trans (append_assoc _ _ _)

end Arms

section Enums

lemma length_run_mapM {β : Type} (f : β → Rule α) (xs : List β) (s : State) :
    (((xs.mapM f).toCheck (visits env)).run s).1.length = xs.length := by
  induction xs generalizing s with
  | nil => rfl
  | cons b xs ih =>
    simp only [mapM_cons, toCheck_bind, run_bind]
    exact congrArg Nat.succ (ih _)

lemma symbols_declareValue (name : String) (id : SymbolId) (span : Span) (s : State) :
    (((declareValue name id span).toCheck (visits env)).run s).2.symbols = s.symbols := by
  have hstep : ((perform (.declareValue name id)).toCheck (visits env)).run s =
      (Action.declareValue name id).step s := rfl
  rw [declareValue, toCheck_bind, run_bind, hstep]
  cases hdeclare : s.scopes.declareValue name id with
  | ok scopes => simp only [Action.step, hdeclare]; rfl
  | error collision => simp only [Action.step, hdeclare]; rfl

lemma run_variants (env : Env) (enum : SymbolId) (decl : EnumDecl)
    (entries : List (VariantDecl × List Ty)) (s : State) :
    let r := ((entries.mapM fun (entry : VariantDecl × List Ty) => do
      let made ← perform (.allocate (variantSymbol enum decl entry.1 entry.2))
      declareValue entry.1.name made entry.1.span
      return made).toCheck (visits env)).run s
    s.symbols.Retains r.2.symbols ∧
      r.1.map (fun made => (r.2.symbols.get made).name) = entries.map (·.1.name) := by
  induction entries generalizing s with
  | nil => exact ⟨.refl _, rfl⟩
  | cons entry rest ih =>
    obtain ⟨variant, payload⟩ := entry
    let symbol := variantSymbol enum decl variant payload
    let made : SymbolId := ⟨s.symbols.size⟩
    let named := (((declareValue variant.name made variant.span).toCheck (visits env)).run
      { s with symbols := (s.symbols.alloc symbol).2 }).2
    have hnamed : named.symbols = (s.symbols.alloc symbol).2 := symbols_declareValue ..
    have hmade : made ∈ named.symbols := by
      rw [hnamed]
      exact (Nat.lt_succ_self _).trans_eq (size_alloc symbol).symm
    have hname : (named.symbols.get made).name = variant.name := by
      rw [hnamed, get_alloc_new]
      rfl
    obtain ⟨hretains, hnames⟩ := ih named
    have hold : s.symbols.Retains named.symbols := hnamed ▸ (Retains.refl _).alloc symbol
    simp only [mapM_cons, toCheck_bind, run_bind]
    exact ⟨hold.trans hretains, congrArg₂ cons ((hretains.name hmade).trans hname) hnames⟩

lemma run_payloads (hacyclic : env.program.Acyclic) (decl : EnumDecl) (s : State) :
    let u := ((inScope do
      declareTypeParams decl.typeParams
      decl.variants.mapM fun variant => variant.payload.mapM resolveType).toCheck
        (visits env)).run s
    u.1.length = decl.variants.length ∧ s.symbols.Retains u.2.symbols := by
  constructor
  · simp only [run_inScope, toCheck_bind, run_bind]
    exact length_run_mapM _ _ _
  · refine retains_of_spares hacyclic (spares_lenient.pieces.scope ?_)
    exact (spares_lenient.pieces.declareTypeParams fun _ _ => not_false).after fun _ => spares_lenient.silent
      (Account.Does.mapM_silent fun _ _ => .mapM_silent fun t _ => resolveType_does t).silent

lemma variants_setVariants {made : SymbolId} (hmade : made ∈ s.symbols)
    (variants : List SymbolId) : let t := ((Action.setVariants made variants).step s).2
    (t.symbols.get made).variants.map (fun variant => (t.symbols.get variant).name) =
      variants.map fun variant => (s.symbols.get variant).name := by
  intro t
  have hvariants : (t.symbols.get made).variants = variants :=
    congrArg Symbol.variants (get_modify_self _ _ hmade)
  have hname (id : SymbolId) : (t.symbols.get id).name = (s.symbols.get id).name := by
    rcases s.symbols.get_modify_cases made id fun symbol => { symbol with variants }
      with hget | hget <;>
    · have hsame := congrArg Symbol.name hget
      exact hsame
  simp only [hvariants, hname]

lemma variants_populateEnum (hacyclic : env.program.Acyclic) {made : SymbolId}
    (hmade : made ∈ s.symbols) (decl : EnumDecl) :
    let t := (((populateEnum made decl).toCheck (visits env)).run s).2
    (t.symbols.get made).variants.map (fun variant => (t.symbols.get variant).name) =
      decl.variants.map (·.name) := by
  obtain ⟨hlength, hheader⟩ := run_payloads hacyclic decl s
  simp only [populateEnum, toCheck_bind, run_bind]
  generalize ((inScope do
    declareTypeParams decl.typeParams
    decl.variants.mapM fun variant => variant.payload.mapM resolveType).toCheck
      (visits env)).run s = u at hlength hheader
  obtain ⟨hretains, hnames⟩ := run_variants env made decl (decl.variants.zip u.1) u.2
  have hmem := (hmade.trans_le hheader.size).trans_le hretains.size
  refine ((variants_setVariants hmem _).trans hnames).trans ?_
  calc (decl.variants.zip u.1).map (·.1.name)
      = ((decl.variants.zip u.1).map (·.1)).map (·.name) := by rw [map_map]; rfl
    _ = decl.variants.map (·.name) := by rw [map_fst_zip hlength.ge]

end Enums

end Check

lemma SymbolTable.mem_of_enumsOf {table : SymbolTable} {ty : Ty}
    (h : enum ∈ table.enumsOf ty) : enum ∈ table := by
  obtain ⟨member, -, hmember⟩ := mem_filterMap.mp h
  have hkind : (table.get enum).kind = .enumType := by
    cases member with
    | named head args => simpa using (Option.filter_eq_some_iff.mp hmember).2
    | _ => cases hmember
  by_contra hout
  rw [get_of_not_lt hout] at hkind
  cases hkind

namespace MatchSite

def last (site : MatchSite) (arms : List MatchArm) (span : Span) : List Diagnostic :=
  let name (symbol : SymbolId) := (site.state.symbols.get symbol).name
  if arms.any (site.excuses ·.pattern) || (site.missing arms).isEmpty then []
  else [(Finding.nonExhaustiveMatch (name site.enum) ((site.missing arms).map name)).toDiagnostic span]

variable {site : MatchSite}

lemma last_of_sees {t : State} (hsees : site.state.Sees t)
    (hsound : site.state.Sound) (henum : site.enum ∈ site.state.symbols) (arms : List MatchArm)
    (span : Span) : let declared := t.symbols.get site.enum
    let left := Coverage.uncovered declared.variants (arms.map (site.coverage ·.pattern))
    (if left.isEmpty then [] else [(nonExhaustiveMatch declared.name
      (left.map fun variant => (t.symbols.get variant).name)).toDiagnostic span]) =
      site.last arms span := by
  intro declared left
  have hleft : left = if arms.any (site.excuses ·.pattern) then [] else site.missing arms := by
    simp only [left, declared, hsees.symbols.variants henum, uncovered_coverage, missing]
  have hvariants : ∀ variant ∈ site.missing arms, variant ∈ site.state.symbols := fun variant h =>
    (hsound.symbols _ (get_mem henum)).variants variant (mem_of_mem_filter h)
  have hnames : (site.missing arms).map (fun variant => (t.symbols.get variant).name) =
      (site.missing arms).map fun variant => (site.state.symbols.get variant).name :=
    map_congr_left fun variant h => hsees.symbols.name (hvariants variant h)
  rw [last, hleft]
  cases arms.any (site.excuses ·.pattern) with
  | true => simp only [if_true, isEmpty_nil, Bool.true_or]
  | false =>
    simp only [Bool.false_eq_true, if_false, Bool.false_or, hnames, declared,
      hsees.symbols.name henum]

lemma filter_last (site : MatchSite) (arms : List MatchArm) (span : Span) :
    (site.last arms span).filter (·.code == .nonExhaustiveMatch) = site.last arms span := by
  unfold last
  split
  · rfl
  · simp [toDiagnostic, code]

lemma nonExhaustiveMatch_notMem_faults (site : MatchSite) (pattern : Pattern) :
    Code.nonExhaustiveMatch ∉ site.faults pattern := by
  have hvariant (variant : SymbolId) (bindings : Nat) :
      .nonExhaustiveMatch ∉ site.variantFaults variant bindings := by
    unfold variantFaults
    dsimp only
    split <;> split <;> simp
  unfold faults
  cases pattern.kind with
  | wildcard => simp
  | name name =>
    dsimp only
    cases site.variant? name <;> simp [hvariant]
  | literal literal =>
    dsimp only
    split <;> simp
  | variant name bindings =>
    dsimp only
    split
    · simp
    · split
      · exact hvariant _ _
      · simp

lemma filter_patterns {arms : List MatchArm} {parts : List ArmReports}
    (h : parts.map ArmReports.judgements = arms.map (site.faults ·.pattern)) :
    (parts.flatMap (·.pattern)).filter (·.code == .nonExhaustiveMatch) = [] := by
  refine filter_eq_nil_iff.mpr fun d hd hcode => ?_
  obtain ⟨part, hpart, hmem⟩ := mem_flatMap.mp hd
  have hjudged : Code.nonExhaustiveMatch ∈ part.judgements :=
    mem_filter.mpr ⟨mem_map.mpr ⟨d, hmem, by simpa using hcode⟩, rfl⟩
  have hfaults : part.judgements ∈ arms.map (site.faults ·.pattern) := h ▸ mem_map_of_mem hpart
  obtain ⟨arm, -, harm⟩ := mem_map.mp hfaults
  exact site.nonExhaustiveMatch_notMem_faults arm.pattern (harm ▸ hjudged)

end MatchSite

lemma Check.value_sound (env : Env) (hs : s.Sound) (id : ExprId) :
    ((expr env (.value none) id).run s).2.Sound := by
  have hrole : Role.Sound {} s.symbols.size (.value none) := noHint_sound
  have hmeets : (expr env (.value none) id).Meets (Action.safely {}) s _ :=
    (exprWithin_safe env.program.exprDepth).expr id hs hrole
  exact (meets_performing_iff.mp (performs_safely hmeets)).2.1.sound

/-- A match on an enum, at any point of a check. What it reports is what its subject, its patterns and
the bodies of its arms report, and at the end the variants that no arm covers, in the order of the enum
and in one report. Nothing is reported at the end if there is no such variant, or if a pattern covers
everything or is wrong. The order of an enum is that of its declaration. -/
theorem match_reports_missing {env : Env} (imports : List Ident) (hacyclic : env.program.Acyclic)
    {s : State} (hs : s ∈ (Check.program env imports).states {}) {id : StmtId} {subject : ExprId}
    {arms : List MatchArm} (hkind : (env.program.stmt id).kind = .cases subject arms) {ty : Ty}
    {t : State} (hsubject : (Check.expr env (.value none) subject).run s = (ty, t)) {enum : SymbolId}
    (henum : t.symbols.enumsOf ty = [enum]) :
    let site : MatchSite := ⟨env.options, ty, enum, t⟩
    let matched := (((Rule.subjectEnum ty).toCheck (Check.visits env)).run t).1
    let parts := Check.armReports env ty matched arms t
    let last := site.last arms (env.program.stmt id).span
    (Check.stmt env id).reports s = (Check.expr env (.value none) subject).reports s ++
        parts.flatMap (fun part => part.pattern ++ part.body) ++ last ∧
      (parts.flatMap (·.pattern) ++ last).filter (·.code == .nonExhaustiveMatch) = last ∧
      parts.map ArmReports.judgements = arms.map (site.faults ·.pattern) ∧
      ∀ (decl : EnumDecl) (made : SymbolId) (u : State), made ∈ u.symbols →
        let v := (((Rule.populateEnum made decl).toCheck (Check.visits env)).run u).2
        (v.symbols.get made).variants.map (fun variant => (v.symbols.get variant).name) =
          decl.variants.map (·.name) := by
  intro site matched parts last
  have hmem : enum ∈ t.symbols := SymbolTable.mem_of_enumsOf (by rw [henum]; exact .head _)
  have hsound : t.Sound := by
    have hvalue := value_sound env (program_sound env imports s hs) subject
    rwa [hsubject] at hvalue
  obtain ⟨σ, hrun⟩ := Rule.run_subjectEnum (visits env) henum
  have hmatched : matched = some ⟨enum, σ⟩ := congrArg Prod.fst hrun
  have hsees : site.state.Sees t := ⟨fun _ => rfl, .refl _⟩
  obtain ⟨hcoverage, hafter, hdiagnostics, hparts⟩ := run_arms site rfl
    (fun h => hsound.scopes.lookupValue h) hacyclic σ arms hsees
  have hlast := last_of_sees hafter hsound hmem arms (env.program.stmt id).span
  have hsame : parts = armReports env ty (some ⟨enum, σ⟩) arms t := by rw [← hmatched]
  rw [hsame]
  refine ⟨reports_eq ?_, ?_, hparts, fun decl made u hmade =>
    variants_populateEnum hacyclic hmade decl⟩
  · have hstmt : stmt env id =
        (Rule.checkMatch env subject arms (env.program.stmt id).span).toCheck (visits env) := by
      rw [stmt_eq_toCheck (hacyclic.stmt id).ends, Rule.statement, hkind]
      rfl
    have hvalue := (expr_appends env (.value none) subject).toList_diagnostics s
    rw [hsubject] at hvalue
    rw [hstmt]
    have hexpr : (visits env).expr = expr env := rfl
    simp only [Rule.checkMatch, Rule.toCheck_bind, Rule.toCheck_visit, run_bind, hexpr, hsubject,
      hrun]
    rw [Rule.toList_checkExhaustive, hcoverage, hlast, hdiagnostics, hvalue]
    simp only [append_assoc, site, last]
  · rw [filter_append, filter_patterns hparts, nil_append]
    exact site.filter_last arms _

/-- A match that has two arms for one variant of an enum and none for the other two. In the body of the
first arm the name of another variant is declared anew. -/
def partialMatch : Env where
  program := {
    expressions := #[⟨{}, .name "Red"⟩, ⟨{}, .name "c"⟩, ⟨{}, .literal (.int "1")⟩]
    statements := #[
      ⟨{}, .enum { name := ⟨"Color", {}⟩, variants := [{ name := "Red" }, { name := "Green" },
        { name := "Blue", payload := [.named {} "i32" []] }] }⟩,
      ⟨{}, .bind { name := ⟨"c", {}⟩, type := some (.named {} "Color" []), value := some ⟨0⟩ }⟩,
      ⟨{}, .bind { name := ⟨"Green", {}⟩, value := some ⟨2⟩ }⟩,
      ⟨{}, .cases ⟨1⟩ [{ pattern := { kind := .name "Red" }, body := { statements := [⟨2⟩] } },
        { pattern := { kind := .name "Red" }, body := {} }]⟩]
    items := [⟨0⟩, ⟨1⟩, ⟨3⟩] }
  options := {}

def partialState : State :=
  (((Check.program partialMatch []).states {}).find? fun s =>
    (s.scopes.lookupValue "c").isSome).getD {}

lemma partialState_mem : partialState ∈ (Check.program partialMatch []).states {} := by
  exact getD_find?_mem (by decide +kernel) _

theorem match_reports_missing_partial :
    partialMatch.program.Acyclic ∧ partialState ∈ (Check.program partialMatch []).states {} ∧
      (Finding.nonExhaustiveMatch "Color" ["Green", "Blue"]).toDiagnostic {} ∈
        (Check.stmt partialMatch ⟨3⟩).reports partialState := by
  have hacyclic : partialMatch.program.Acyclic :=
    Program.acyclic_of_indices (by decide) (by decide)
  have hkind : (partialMatch.program.stmt ⟨3⟩).kind = .cases ⟨1⟩ [
      { pattern := { kind := .name "Red" }, body := { statements := [⟨2⟩] } },
      { pattern := { kind := .name "Red" }, body := {} }] := rfl
  let r := (expr partialMatch (.value none) ⟨1⟩).run partialState
  have henum : r.2.symbols.enumsOf r.1 = [⟨0⟩] := by decide +kernel
  have hreports := (match_reports_missing [] hacyclic partialState_mem hkind rfl henum).1
  refine ⟨hacyclic, partialState_mem, ?_⟩
  rw [hreports]
  refine mem_append_right _ ?_
  decide +kernel

end StaticTyping
