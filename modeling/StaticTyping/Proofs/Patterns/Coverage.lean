import StaticTyping.Proofs.Output.Sequence
import StaticTyping.Proofs.Patterns.Retained
import StaticTyping.Proofs.Scopes.Lookup

/-! What a pattern covers, told from the scopes and symbols at its match. A pattern may cover everything
or one variant of the enum that is matched, and it may be wrong in one of a few ways, each of which is
reported. -/

namespace StaticTyping

open Request List Finding

def Literal.patternType (options : Options) (subject : Ty) : Literal → Ty
  | .int _ => .prim (Rule.integerWidth options (some subject))
  | .float => .prim (Rule.floatWidth options (some subject))
  | .string _ => .string
  | .bool _ => .bool
  | .null => .null

/-- A match on an enum, once the subject is checked. -/
structure MatchSite where
  options : Options
  subject : Ty
  enum : SymbolId
  state : State

namespace MatchSite

def variant? (site : MatchSite) (name : String) : Option SymbolId :=
  (site.state.scopes.lookupValue name).filter fun id => (site.state.symbols.get id).kind == .variant

/-- What is wrong with a pattern that names this variant and binds so many values. -/
def variantFaults (site : MatchSite) (variant : SymbolId) (bindings : Nat) : List Code :=
  let declared := site.state.symbols.get variant
  (if declared.owner = some site.enum then [] else [.foreignVariant]) ++
    if bindings = declared.payload.length then [] else [.patternArity]

def faults (site : MatchSite) (pattern : Pattern) : List Code :=
  match pattern.kind with
  | .wildcard => []
  | .name name => ((site.variant? name).map (site.variantFaults · 0)).getD []
  | .literal literal =>
    if (literal.patternType site.options site.subject).assignable site.subject then []
    else [.literalPattern]
  | .variant name bindings =>
    match site.state.scopes.lookupValue name.name with
    | none => [.unknownIdentifier]
    | some id =>
      if (site.state.symbols.get id).kind = .variant then site.variantFaults id bindings.length
      else [.notAVariant]

/-- A wildcard, or a name that stands for no variant and so binds the subject. -/
def catchesAll (site : MatchSite) (pattern : Pattern) : Bool :=
  match pattern.kind with
  | .wildcard => true
  | .name name => (site.variant? name).isNone
  | .literal _ | .variant _ _ => false

def named? (site : MatchSite) (pattern : Pattern) : Option SymbolId :=
  match pattern.kind with
  | .name name => site.variant? name
  | .variant name _ => site.variant? name.name
  | .wildcard | .literal _ => none

/-- The pattern is a good one for this variant. -/
def covers (site : MatchSite) (pattern : Pattern) (variant : SymbolId) : Bool :=
  site.named? pattern = some variant && (site.faults pattern).isEmpty

/-- The variants of the enum that no arm covers, in the order of the enum. -/
def missing (site : MatchSite) (arms : List MatchArm) : List SymbolId :=
  (site.state.symbols.get site.enum).variants.filter
    fun variant => !arms.any (site.covers ·.pattern variant)

/-- Where a pattern covers everything or is wrong, no variant is reported as missing. -/
def excuses (site : MatchSite) (pattern : Pattern) : Bool :=
  site.catchesAll pattern || !(site.faults pattern).isEmpty

def coverage (site : MatchSite) (pattern : Pattern) : Coverage :=
  if (site.faults pattern).isEmpty then
    if site.catchesAll pattern then .catchAll
    else (site.named? pattern).elim .literal .variant
  else .invalid

variable {site : MatchSite} {pattern : Pattern} {variant : SymbolId}

lemma catchesAll_of_named (h : site.named? pattern = some variant) :
    site.catchesAll pattern = false := by
  obtain ⟨span, kind⟩ := pattern
  cases kind with
  | wildcard | literal => cases h
  | name name => simp_all [named?, catchesAll]
  | variant name bindings => rfl

lemma coverage_eq_variant_iff : site.coverage pattern = .variant variant ↔
    site.covers pattern variant := by
  unfold coverage covers
  cases hnamed : site.named? pattern with
  | none => split <;> [split; skip] <;> simp
  | some found =>
    rw [catchesAll_of_named hnamed]
    split <;> simp [*]

lemma excuses_iff : site.excuses pattern ↔
    site.coverage pattern = .catchAll ∨ site.coverage pattern = .invalid := by
  unfold excuses coverage
  cases site.named? pattern <;> cases site.catchesAll pattern <;>
    cases (site.faults pattern).isEmpty <;> simp

lemma uncovered_coverage (site : MatchSite) (arms : List MatchArm) (variants : List SymbolId) :
    Coverage.uncovered variants (arms.map (site.coverage ·.pattern)) =
      if arms.any (site.excuses ·.pattern) then []
      else variants.filter fun variant => !arms.any (site.covers ·.pattern variant) := by
  have hexcuses : (((arms.map (site.coverage ·.pattern)).contains .catchAll ||
      (arms.map (site.coverage ·.pattern)).contains .invalid) : Bool) =
        arms.any (site.excuses ·.pattern) := by
    rw [Bool.eq_iff_iff]
    simp only [Bool.or_eq_true, contains_iff_mem, mem_map, any_eq_true, excuses_iff]
    grind
  have hcovers (variant : SymbolId) : (arms.map (site.coverage ·.pattern)).contains (.variant variant) =
      arms.any (site.covers ·.pattern variant) := by
    rw [Bool.eq_iff_iff]
    simp only [contains_iff_mem, mem_map, any_eq_true, coverage_eq_variant_iff]
  simp only [Coverage.uncovered, hexcuses, hcovers]

end MatchSite

/-- Names mean the same in the second state, and what they mean is declared the same. -/
structure State.Sees (s t : State) : Prop where
  scopes (name : String) : t.scopes.lookupValue name = s.scopes.lookupValue name
  symbols : s.symbols.Retains t.symbols

lemma State.Sees.trans {s t u : State} (hst : s.Sees t) (htu : t.Sees u) : s.Sees u where
  scopes name := (htu.scopes name).trans (hst.scopes name)
  symbols := hst.symbols.trans htu.symbols

lemma State.Sees.push {s t : State} (h : s.Sees t) : s.Sees { t with scopes := t.scopes.push } where
  scopes name := h.scopes name
  symbols := h.symbols

namespace MatchSite

variable {site : MatchSite} {t : State}

variable (hsees : site.state.Sees t) (hsound : ∀ {name : String} {id : SymbolId},
    site.state.scopes.lookupValue name = some id → id ∈ site.state.symbols)
include hsees hsound

lemma variant?_of_sees (name : String) :
    { site with state := t }.variant? name = site.variant? name := by
  simp only [variant?, hsees.scopes]
  cases hlookup : site.state.scopes.lookupValue name with
  | none => rfl
  | some id => simp only [Option.filter, hsees.symbols.kind (hsound hlookup)]

lemma faults_of_sees (pattern : Pattern) :
    { site with state := t }.faults pattern = site.faults pattern := by
  have hfaults {name : String} {id : SymbolId} (hid : site.state.scopes.lookupValue name = some id)
      (bindings : Nat) :
      { site with state := t }.variantFaults id bindings = site.variantFaults id bindings := by
    simp only [variantFaults, hsees.symbols.owner (hsound hid), hsees.symbols.payload (hsound hid)]
  unfold faults
  cases pattern.kind with
  | wildcard | literal => rfl
  | name name =>
    simp only [variant?_of_sees hsees hsound]
    cases hvariant : site.variant? name with
    | none => rfl
    | some id => exact hfaults (Option.filter_eq_some_iff.mp hvariant).1 0
  | variant name bindings =>
    simp only [hsees.scopes]
    cases hlookup : site.state.scopes.lookupValue name.name with
    | none => rfl
    | some id => simp only [hsees.symbols.kind (hsound hlookup), hfaults hlookup]

lemma coverage_of_sees (pattern : Pattern) :
    { site with state := t }.coverage pattern = site.coverage pattern := by
  have hcatches : { site with state := t }.catchesAll pattern = site.catchesAll pattern := by
    simp only [catchesAll, variant?_of_sees hsees hsound]
  have hnamed : { site with state := t }.named? pattern = site.named? pattern := by
    simp only [named?, variant?_of_sees hsees hsound]
  simp only [coverage, faults_of_sees hsees hsound, hcatches, hnamed]

end MatchSite

def Code.judges : Code → Bool
  | .unknownIdentifier | .patternArity | .literalPattern | .foreignVariant | .notAVariant
  | .nonExhaustiveMatch => true
  | _ => false

def State.judgements (s : State) : List Code :=
  (s.diagnostics.entries.toList.map (·.code)).filter Code.judges

lemma State.judgements_push (s : State) (d : Diagnostic) : ((Action.report d).step s).2.judgements =
      s.judgements ++ if d.code.judges then [d.code] else [] := by
  simp only [judgements, Action.step, Diagnostics.toList_push, map_append, filter_append,
    map_singleton, filter_singleton, Bool.cond_eq_ite]

/-- The request judges no pattern and has nothing checked that might. -/
def Request.Quiet {β : Type} : Request β → Prop
  | .act (.report d) => d.code.judges = false
  | .act (.hoist _ _) => False
  | .act _ => True
  | .expr _ _ | .stmt _ | .expand _ _ _ _ => False

namespace Rule

variable {α β : Type} {visits : Visits} {x : Rule α}

lemma judgements_quiet (hx : x.Uses Quiet) (s : State) :
    ((x.toCheck visits).run s).2.judgements = s.judgements := by
  induction x generalizing s with
  | done a => rfl
  | ask request next ih =>
    cases request with
    | act action =>
      have hstep : (action.step s).2.judgements = s.judgements := by
        cases action with
        | report d =>
          have hd : d.code.judges = false := hx.1
          rw [State.judgements_push, hd]
          simp
        | hoist start middle => exact hx.1.elim
        | declareValue name id | declareType name id | lookupValueType name =>
          simp only [Action.step]
          split <;> rfl
        | _ => rfl
      exact (ih _ (hx.2 _) _).trans hstep
    | expr | stmt | expand => exact hx.1.elim

lemma declareValue_quiet (name : String) (id : SymbolId) (span : Span) :
    (declareValue name id span).Uses Quiet := by
  refine ⟨trivial, fun found => ?_⟩
  cases found with
  | none => trivial
  | some existing => exact ⟨trivial, fun _ => ⟨rfl, fun _ => trivial⟩⟩

lemma declareLocal_quiet (name : String) (ty : Ty) (span : Span) :
    (declareLocal name ty span).Uses Quiet :=
  ⟨trivial, fun _ => declareValue_quiet _ _ _⟩

lemma declareBindings_quiet (σ : Substitution) (payload : List Ty) (bindings : List Ident) :
    (declareBindings σ payload bindings).Uses Quiet := by
  induction bindings generalizing payload with
  | nil =>
    trivial
  | cons binding rest ih =>
    exact (declareLocal_quiet _ _ _).bind fun _ => ih _

/-- In that state the rule answers `a` and adds these judgements. -/
def Judges (visits : Visits) (s : State) (x : Rule α) (a : α) (codes : List Code) : Prop :=
  ((x.toCheck visits).run s).1 = a ∧ ((x.toCheck visits).run s).2.judgements = s.judgements ++ codes

section Judges

variable {s : State} {finding : Finding} {a : α} {codes : List Code}

lemma judges_pure (a : α) : Judges visits s (pure a) a [] := ⟨rfl, (append_nil _).symm⟩

lemma judges_lookupValue {name : String} {f : Option SymbolId → Rule α} :
    Judges visits s (lookupValue name >>= f) a codes ↔
      Judges visits s (f (s.scopes.lookupValue name)) a codes := Iff.rfl

lemma judges_symbol {id : SymbolId} {f : Symbol → Rule α} :
    Judges visits s (symbol id >>= f) a codes ↔ Judges visits s (f (s.symbols.get id)) a codes := Iff.rfl

lemma judges_quiet {x : Rule β} (hx : x.Uses Quiet) (a : α) :
    Judges visits s (x >>= fun _ => pure a) a [] := by
  have huses : (x >>= fun _ => pure a : Rule α).Uses Quiet := hx.bind fun _ => trivial
  refine ⟨?_, (judgements_quiet huses s).trans (append_nil _).symm⟩
  rw [toCheck_bind, Check.run_bind]
  rfl

lemma Judges.bind {f : α → Rule β} {b : β} {codes' : List Code} (hx : Judges visits s x a codes)
    (hf : Judges visits ((x.toCheck visits).run s).2 (f a) b codes') :
    Judges visits s (x >>= f) b (codes ++ codes') := by
  unfold Judges
  rw [toCheck_bind, Check.run_bind, hx.1, ← append_assoc, ← hx.2]
  exact hf

lemma judges_report (hcode : finding.code.judges) (span : Span) :
    Judges visits s (report finding span) () [finding.code] := by
  refine ⟨rfl, (s.judgements_push (finding.toDiagnostic span)).trans ?_⟩
  simp [toDiagnostic, hcode]

lemma judges_reportIf (condition : Bool) (hcode : finding.code.judges) (span : Span) :
    Judges visits s (reportIf condition finding span) () (if condition then [finding.code] else []) := by
  cases condition with
  | false => exact judges_pure ()
  | true => exact judges_report hcode span

end Judges

variable (site : MatchSite) (σ : Substitution)

lemma checkOwner_judges (declared : Symbol) (span : Span) (s : State) :
    Judges visits s (checkOwner declared (some ⟨site.enum, σ⟩) span)
      (decide (declared.owner = some site.enum))
      (if declared.owner = some site.enum then [] else [.foreignVariant]) := by
  unfold checkOwner
  by_cases howner : declared.owner = some site.enum
  · simpa [howner] using judges_pure true
  · simp only [howner, if_false, decide_false]
    have hcode : (foreignVariant declared.name (s.symbols.get site.enum).name).code.judges := rfl
    exact (judges_report hcode span).bind (judges_pure false)

lemma variantPattern_judges (variant : SymbolId) (bindings : List Ident) (span : Span) :
    Judges visits site.state (variantPattern variant bindings span (some ⟨site.enum, σ⟩))
      (if (site.variantFaults variant bindings.length).isEmpty then .variant variant else .invalid)
      (site.variantFaults variant bindings.length) := by
  let declared := site.state.symbols.get variant
  let belongs := decide (declared.owner = some site.enum)
  let fits := bindings.length == declared.payload.length
  have hfaults : site.variantFaults variant bindings.length =
      (if declared.owner = some site.enum then [] else [.foreignVariant]) ++
        ((if !fits then [.patternArity] else []) ++ []) := by
    simp [MatchSite.variantFaults, declared, fits]
  have hempty : (site.variantFaults variant bindings.length).isEmpty = (belongs && fits) := by
    rw [hfaults]
    by_cases howner : declared.owner = some site.enum <;> cases fits <;> simp [belongs, howner]
  rw [hempty, hfaults]
  exact (checkOwner_judges site σ declared span site.state).bind
    ((judges_reportIf (!fits) rfl span).bind (judges_quiet (declareBindings_quiet ..) _))

lemma literalType_judges (literal : Literal) (span : Span) (s : State) :
    Judges visits s (literalType site.options literal (some site.subject) span false)
      (literal.patternType site.options site.subject) [] := by
  cases literal with
  | int digits =>
    refine judges_quiet ?_ _
    unfold reportIf
    split
    · exact ⟨rfl, fun _ => trivial⟩
    · trivial
  | _ => exact judges_pure _

lemma namePattern_judges (name : String) (span : Span) :
    Judges visits site.state (namePattern name span site.subject (some ⟨site.enum, σ⟩))
      (site.coverage ⟨span, .name name⟩) (site.faults ⟨span, .name name⟩) := by
  have hlocal (h : site.variant? name = none) : Judges visits site.state
      (do declareLocal name site.subject span; return Coverage.catchAll)
      (site.coverage ⟨span, .name name⟩) (site.faults ⟨span, .name name⟩) := by
    simp only [MatchSite.coverage, MatchSite.faults, MatchSite.catchesAll, h]
    exact judges_quiet (declareLocal_quiet ..) _
  rw [namePattern, judges_lookupValue]
  cases hlookup : site.state.scopes.lookupValue name with
  | none => exact hlocal (by simp [MatchSite.variant?, hlookup])
  | some id =>
    rw [judges_symbol]
    by_cases hkind : (site.state.symbols.get id).kind = .variant
    · have hvariant : site.variant? name = some id := by simp [MatchSite.variant?, hlookup, hkind]
      have hfaults : site.faults ⟨span, .name name⟩ = site.variantFaults id 0 := by
        simp [MatchSite.faults, hvariant]
      rw [if_pos (by simp [hkind]), MatchSite.coverage, hfaults]
      simp only [MatchSite.catchesAll, MatchSite.named?, hvariant]
      exact variantPattern_judges site σ id [] span
    · rw [if_neg (by simp [hkind])]
      exact hlocal (by simp [MatchSite.variant?, hlookup, hkind])

lemma checkPattern_judges (pattern : Pattern) : Judges visits site.state
      (checkPattern site.options pattern site.subject (some ⟨site.enum, σ⟩))
      (site.coverage pattern) (site.faults pattern) := by
  obtain ⟨span, kind⟩ := pattern
  cases kind with
  | wildcard => exact judges_pure _
  | name name => exact namePattern_judges site σ name span
  | literal literal =>
    by_cases h : (literal.patternType site.options site.subject).assignable site.subject
    · have hfaults : site.faults ⟨span, .literal literal⟩ = [] := if_pos h
      rw [MatchSite.coverage, hfaults]
      refine (literalType_judges site literal span _).bind ?_
      rw [if_pos h]
      exact judges_pure _
    · have hfaults : site.faults ⟨span, .literal literal⟩ = [.literalPattern] := if_neg h
      rw [MatchSite.coverage, hfaults]
      refine (literalType_judges site literal span _).bind ?_
      rw [if_neg h]
      exact (judges_report rfl span).bind (judges_pure _)
  | variant name bindings =>
    have hwrong {finding : Finding} (hcode : finding.code.judges)
        (h : site.faults ⟨span, .variant name bindings⟩ = [finding.code]) :
        Judges visits site.state
          (do report finding name.span; declareBindings .empty [] bindings; return Coverage.invalid)
          (site.coverage ⟨span, .variant name bindings⟩)
          (site.faults ⟨span, .variant name bindings⟩) := by
      rw [MatchSite.coverage, h]
      exact (judges_report hcode name.span).bind (judges_quiet (declareBindings_quiet ..) _)
    simp only [checkPattern]
    rw [judges_lookupValue]
    cases hlookup : site.state.scopes.lookupValue name.name with
    | none => exact hwrong rfl (by simp [MatchSite.faults, hlookup, code])
    | some id =>
      rw [judges_symbol]
      by_cases hkind : (site.state.symbols.get id).kind = .variant
      · have hvariant : site.variant? name.name = some id := by
          simp [MatchSite.variant?, hlookup, hkind]
        have hfaults : site.faults ⟨span, .variant name bindings⟩ =
            site.variantFaults id bindings.length := by
          simp [MatchSite.faults, hlookup, hkind]
        rw [if_pos (by simp [hkind]), MatchSite.coverage, hfaults]
        simp only [MatchSite.catchesAll, MatchSite.named?, hvariant]
        exact variantPattern_judges site σ id bindings name.span
      · rw [if_neg (by simp [hkind])]
        exact hwrong rfl (by simp [MatchSite.faults, hlookup, hkind, code])

end Rule

end StaticTyping
