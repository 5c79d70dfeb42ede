import StaticTyping.Proofs.Calls.KeywordSpread
import StaticTyping.Proofs.Output.Frame

/-! A function called by its name and a value of its type called in its place. The one call binds values
to parameters that have names, the other one counts them. As long as all arguments have places, both check
the same values against the same types in the same order; they differ in how a wrong number of arguments
is reported, and when. -/

namespace StaticTyping

open Check State Finding Rule List Prod

variable {name : String} {arg : Argument} {t s : State} {id : ExprId} {result : Ty} {n : Count}
  {b : Binding}

def mismatchSpans (ds : List Diagnostic) : List (Option Span) :=
  (ds.filter (·.code == .typeMismatch)).map (·.span)

lemma mismatchSpans_append (ds es : List Diagnostic) :
    mismatchSpans (ds ++ es) = mismatchSpans ds ++ mismatchSpans es := by
  simp [mismatchSpans]

/-- What two calls have reported: mismatches in the same places. The first one has reported something if
the second one has, or if there are values without a place. -/
structure InPace (surplus : Prop) (first second : List Diagnostic) : Prop where
  spans : mismatchSpans first = mismatchSpans second
  none : first = [] ↔ second = [] ∧ ¬surplus

variable {surplus : Prop} {params : List ParamInfo} {env : Env} {base : List Diagnostic}
  {callee : String}

namespace InPace

variable {first second : List Diagnostic}

lemma append (h : InPace surplus first second) (added : List Diagnostic) :
    InPace surplus (first ++ added) (second ++ added) where
  spans := by simp [mismatchSpans_append, h.spans]
  none := by
    have hnone := h.none
    simp only [append_eq_nil_iff]
    tauto

lemma mismatch (h : InPace surplus first second) (place other : Place)
    (expected found : Ty) (span : Span) :
    InPace surplus (first ++ [(mismatch place expected found).toDiagnostic span])
      (second ++ [(mismatch other expected found).toDiagnostic span]) where
  spans := by
    rw [mismatchSpans_append, mismatchSpans_append, h.spans]
    rfl
  none := by simp

lemma unplaced {d : Diagnostic} (h : InPace surplus first second) (hcode : d.code ≠ .typeMismatch) :
    InPace True (first ++ [d]) second where
  spans := by
    have hnone : mismatchSpans [d] = [] := by simp [mismatchSpans, hcode]
    rw [mismatchSpans_append, hnone, append_nil, h.spans]
  none := by simp

end InPace

/-- Two calls that started with the same diagnostics have come to states in which the same can be found,
and they have reported alike. -/
structure State.InStep (base : List Diagnostic) (surplus : Prop) (s t : State) : Prop where
  quiet : s.quiet = t.quiet
  reported : ∃ first second, s.diagnostics.entries.toList = base ++ first ∧
    t.diagnostics.entries.toList = base ++ second ∧ InPace surplus first second

lemma State.InStep.congr {other : Prop} (h : InStep base surplus s t)
    (hsurplus : surplus ↔ other) : InStep base other s t := by
  rwa [propext hsurplus] at h

/-- Parameters that are filled by position or name, may not be changed, and have no defaults. -/
structure PlainParams (params : List ParamInfo) : Prop where
  positional : ∀ param ∈ params, param.role = .positional
  constant : ∀ param ∈ params, param.isMutable = false
  required : ∀ param ∈ params, param.hasDefault = false
  distinct : (params.map (·.name)).Nodup

namespace PlainParams

variable (h : PlainParams params) (callee : String)

include h

lemma variadic_eq : (Signature.mk callee params).variadic? = none :=
  find?_eq_none.mpr fun param hparam => by simp [h.positional param hparam]

lemma isRequired {param : ParamInfo} (hparam : param ∈ params) : param.isRequired := by
  simp [ParamInfo.isRequired, ParamInfo.isOrdinary, h.positional param hparam, h.required param hparam]

end PlainParams

/-- How a call that binds and one that counts stand to each other: the parameters that are bound are as
many as were counted, or all of them. -/
structure Binding.Counts (params : List ParamInfo) (b : Binding) (n : Count) : Prop where
  free : b.free = params.drop n.supplied
  supplied : ∀ name, name ∈ b.supplied ↔ name ∈ (params.take n.supplied).map (·.name)
  bindsAll : b.anyFilled = false
  countsAll : n.anyFilled = false

namespace Binding.Counts

variable {b : Binding} {n : Count}

lemma next (h : b.Counts params n) (hplace : n.supplied < params.length) : Binding.Counts params
      { b.supply params[n.supplied].name with free := params.drop (n.supplied + 1) }
      { n with supplied := n.supplied + 1 } where
  free := rfl
  supplied name := by
    have hlast : name ∈ [params[n.supplied]].map (·.name) ↔ name = params[n.supplied].name := by simp
    rw [← take_append_getElem hplace, map_append, mem_append, ← h.supplied, hlast,
      or_comm]
    exact mem_cons
  bindsAll := h.bindsAll
  countsAll := h.countsAll

lemma beyond (h : b.Counts params n) (hplace : ¬n.supplied < params.length) :
    b.Counts params { n with supplied := n.supplied + 1 } := by
  have hlength : params.length ≤ n.supplied := Nat.le_of_not_lt hplace
  have hdrop := drop_of_length_le hlength
  have htake := take_of_length_le hlength
  refine ⟨?_, fun name => ?_, h.bindsAll, h.countsAll⟩
  · simp [h.free, hdrop, drop_of_length_le (Nat.le_succ_of_le hlength)]
  · simp [h.supplied, htake, take_of_length_le (Nat.le_succ_of_le hlength)]

end Binding.Counts

namespace Rule

variable {α : Type}

lemma Built.inStep {k : ℕ} {x : Rule α} (hx : Built env k x) :
    Relates env (InStep base surplus) x x (Same (InStep base surplus)) := by
  rintro s t ⟨hquiet, first, second, hs, ht, halike⟩
  have happends : (ofRule env x).Appends := ofRule_appends hx
  rw [happends.run_eq s, happends.run_eq t, hquiet]
  refine ⟨rfl, rfl, first ++ ((ofRule env x).run t.quiet).2.diagnostics.entries.toList,
    second ++ ((ofRule env x).run t.quiet).2.diagnostics.entries.toList, ?_, ?_, halike.append _⟩
  · simp [precededBy, hs]
  · simp [precededBy, ht]

lemma mismatch_inStep (condition : Bool) (place other : Place) (expected found : Ty) (span : Span) :
    Relates env (InStep base surplus)
      (reportIf condition (.mismatch place expected found) span)
      (reportIf condition (.mismatch other expected found) span)
      (Same (InStep base surplus)) := by
  rintro s t ⟨hquiet, first, second, hs, ht, halike⟩
  cases condition with
  | true =>
    refine ⟨rfl, hquiet, _, _, ?_, ?_, halike.mismatch place other expected found span⟩
    · show (s.diagnostics.push _).entries.toList = _
      simp [hs]
    · show (t.diagnostics.push _).entries.toList = _
      simp [ht]
  | false => exact ⟨rfl, hquiet, first, second, hs, ht, halike⟩

lemma surplus_inStep (callee : String) (limit : Nat) (span : Span) :
    Relates env (InStep base surplus) (report (.tooManyPositional callee limit) span) (pure ())
      fun _ _ => InStep base True := by
  rintro s t ⟨hquiet, first, second, hs, ht, halike⟩
  have hcode : ((tooManyPositional callee limit).toDiagnostic span).code ≠ .typeMismatch := by
    simp [toDiagnostic, code]
  refine ⟨hquiet, _, second, ?_, ht, halike.unplaced hcode⟩
  show (s.diagnostics.push _).entries.toList = _
  simp [hs]

def countNext (env : Env) (params : List Ty) (position : Nat) (value : Supplied) : Rule Ty := do
  let found ← suppliedType params[position]? value
  checkExpected params[position]? found (value.span env)
  return found

def countEach (env : Env) (params : List Ty) : Nat → List Supplied → Rule (List Ty)
  | _, [] => return []
  | position, value :: rest => do
    let ty ← countNext env params position value
    let types ← countEach env params (position + 1) rest
    return ty :: types

lemma countElements_eq (params : List Ty) (position : Nat) (elements : List ExprId) :
    countElements env params position elements =
      countEach env params position (elements.map .expr) := by
  induction elements generalizing position with
  | nil => rfl
  | cons element rest ih =>
    simp only [countElements, map_cons, countEach, ih]
    rfl

lemma countTypes_eq (env : Env) (params : List Ty) (span : Span) (position : Nat) (types : List Ty) :
    countTypes params span position types =
      countEach env params position (types.map (.element · span)) >>= fun _ => pure () := by
  induction types generalizing position with
  | nil => rfl
  | cons ty rest ih =>
    simp only [countTypes, map_cons, countEach, countNext, suppliedType, Supplied.span, ih,
      bind_assoc, pure_bind]

lemma next_not_supplied (hplain : PlainParams params) (hcounts : b.Counts params n)
    (hplace : n.supplied < params.length) :
    b.supplied.contains params[n.supplied].name = false := by
  have hnodup := hplain.distinct
  rw [← take_append_drop n.supplied params, drop_eq_getElem_cons hplace] at hnodup
  simp only [map_append, map_cons, nodup_append, mem_cons, forall_eq_or_imp] at hnodup
  have hnew : params[n.supplied].name ∉ (params.take n.supplied).map (·.name) :=
    fun hmem => (hnodup.2.2 _ hmem).1 rfl
  simpa [hcounts.supplied] using hnew

lemma bindNext_inStep (hplain : PlainParams params) (hcounts : b.Counts params n)
    (value : Supplied) : Relates env (InStep base (params.length < n.supplied))
      (bindNext env ⟨callee, params⟩ b value) (countNext env (params.map (·.ty)) n.supplied value)
      fun bound ty s t => bound.1 = ty ∧
        bound.2.Counts params { n with supplied := n.supplied + 1 } ∧
        InStep base (params.length < n.supplied + 1) s t := by
  have hbelow : value.Below fun _ => True := by cases value <;> trivial
  by_cases hplace : n.supplied < params.length
  · have hfree : b.free = params[n.supplied] :: params.drop (n.supplied + 1) := by
      rw [hcounts.free, drop_eq_getElem_cons hplace]
    have htype : (params.map (·.ty))[n.supplied]? = some params[n.supplied].ty := by
      simp [getElem?_map, getElem?_eq_getElem hplace]
    have hconstant := hplain.constant _ (getElem_mem hplace)
    simp only [bindNext, hfree, next_not_supplied hplain hcounts hplace, reportIf, checkSupplied,
      checkMutable, hconstant, countNext, htype, checkExpected, Bool.false_eq_true, if_false,
      bind_assoc, pure_bind]
    refine (Built.inStep (suppliedType_does hbelow _)).bindSame fun found => ?_
    refine (mismatch_inStep _ _ _ _ _ _).bindSame fun _ => .pure fun s t hst => ⟨rfl, ?_, ?_⟩
    · exact hcounts.next hplace
    · exact hst.congr (by omega)
  · have hnone : (params.map (·.ty))[n.supplied]? = none := by simpa using hplace
    have hfree : b.free = [] := by rw [hcounts.free, drop_of_length_le (by omega)]
    simp only [bindNext, hfree, hplain.variadic_eq, countNext, hnone, checkExpected, pure_bind]
    refine (surplus_inStep _ _ _).first fun _ => ?_
    refine (Built.inStep (suppliedType_does hbelow _)).bindSame fun found => ?_
    exact .pure fun s t hst => ⟨rfl, hcounts.beyond hplace, hst.congr (by simp; omega)⟩

lemma bindEach_inStep (hplain : PlainParams params) (values : List Supplied)
    (hcounts : b.Counts params n) : Relates env (InStep base (params.length < n.supplied))
      (bindEach env ⟨callee, params⟩ b values) (countEach env (params.map (·.ty)) n.supplied values)
      fun bound types s t => bound.1 = types ∧
        bound.2.Counts params { n with supplied := n.supplied + values.length } ∧
        InStep base (params.length < n.supplied + values.length) s t := by
  induction values generalizing b n with
  | nil => exact .pure fun s t hst => ⟨rfl, hcounts, hst⟩
  | cons value rest ih =>
    have hlength : n.supplied + (value :: rest).length = n.supplied + 1 + rest.length := by
      simp only [length_cons]
      omega
    rw [hlength]
    refine (bindNext_inStep hplain hcounts value).bind fun bound ty => .assume ?_
    rintro rfl
    refine .assume fun hnext => (ih hnext).bind fun others types => ?_
    exact .pure fun s t hst => ⟨by rw [hst.1], hst.2⟩

end Rule

/-- In a state, the argument gives values places: it is positional, or it spreads a tuple that is written
out, or it spreads what turns out to be a tuple. -/
def Argument.GivesPlaces (env : Env) (s : State) (arg : Argument) : Prop :=
  arg.kind = .positional ∨ arg.kind = .spread ∧
    ((∃ elements, env.exprKind arg.value = .tuple elements) ∨
      ∃ types, ((ofRule env (visit (.value none) arg.value)).run s).1 = .tuple types)

structure Rule.Together (params : List ParamInfo) (base : List Diagnostic) (b : Binding) (n : Count)
    (s t : State) : Prop where
  counts : b.Counts params n
  inStep : InStep base (params.length < n.supplied) s t

namespace Rule

variable (hplain : PlainParams params)

include hplain

lemma bindTuple_together (hcounts : b.Counts params n) (hkind : arg.kind = .spread)
    {elements : List ExprId} (htuple : env.exprKind arg.value = .tuple elements) :
    Relates env (InStep base (params.length < n.supplied))
      (bindArgument env ⟨callee, params⟩ b arg) (countArgument env (params.map (·.ty)) n arg)
      (Together params base) := by
  simp only [bindArgument, countArgument, hkind, htuple, countElements_eq]
  rw [← length_map (f := Supplied.expr)]
  refine (bindEach_inStep hplain _ hcounts).bind fun bound types => .assume ?_
  rintro rfl
  refine .assume fun hnext => (Built.inStep (record_does _ _)).bindSame fun _ => ?_
  exact .pure fun s t hst => ⟨hnext, hst⟩

lemma bindTypes_together (hcounts : b.Counts params n)
    (types : List Ty) (span : Span) : Relates env (InStep base (params.length < n.supplied))
      (bindSpread env ⟨callee, params⟩ b (.tuple types) span)
      (countSpread (params.map (·.ty)) n (.tuple types) span) (Together params base) := by
  simp only [bindSpread, countSpread, countTypes_eq env, bind_assoc, pure_bind]
  rw [← length_map (f := (Supplied.element · span))]
  refine (bindEach_inStep hplain _ hcounts).bind fun bound found => ?_
  exact .pure fun s t hst => ⟨hst.2.1, hst.2.2⟩

lemma bindArgument_together (h : Together params base b n s t) (harg : arg.GivesPlaces env s) :
    let binding := (ofRule env (bindArgument env ⟨callee, params⟩ b arg)).run s
    let counting := (ofRule env (countArgument env (params.map (·.ty)) n arg)).run t
    Together params base binding.1 counting.1 binding.2 counting.2 := by
  intro binding counting
  by_cases hpositional : arg.kind = .positional
  · simp only [binding, counting, bindArgument, countArgument, hpositional]
    exact Relates.bind (S := Together params base) (bindNext_inStep hplain h.counts (.expr arg.value))
      (fun _ _ => .pure fun _ _ hst => ⟨hst.2.1, hst.2.2⟩) s t h.inStep
  obtain ⟨hkind, htuple⟩ := harg.resolve_left hpositional
  by_cases hwritten : ∃ elements, env.exprKind arg.value = .tuple elements
  · obtain ⟨elements, helements⟩ := hwritten
    exact bindTuple_together hplain h.counts hkind helements s t h.inStep
  obtain ⟨types, htypes⟩ := htuple.resolve_left hwritten
  have hnot := not_exists.mp hwritten
  -- What is spread is visited in both calls, with the same outcome.
  have hvisit : Built env 0 (visit (.value none) arg.value) := visit_does trivial _
  obtain ⟨hsame, hafter⟩ := hvisit.inStep s t h.inStep
  simp only [binding, counting, bindArgument, countArgument, hkind, ofRule_bind, run_bind,
    ← hsame, htypes]
  exact bindTypes_together hplain h.counts types arg.span _ _ hafter

/-- All arguments give values places, each in the state in which its turn comes in a call that binds. -/
def AllGivePlaces (env : Env) (sig : Signature) (b : Binding) (s : State) (args : List Argument) :
    Prop :=
  ∀ before arg after, args = before ++ arg :: after →
    arg.GivesPlaces env ((ofRule env (before.foldlM (bindArgument env sig) b)).run s).2

lemma bindAll_together (args : List Argument)
    (h : Together params base b n s t) (hargs : AllGivePlaces env ⟨callee, params⟩ b s args) :
    let binding := (ofRule env (args.foldlM (bindArgument env ⟨callee, params⟩) b)).run s
    let counting := (ofRule env (args.foldlM (countArgument env (params.map (·.ty))) n)).run t
    Together params base binding.1 counting.1 binding.2 counting.2 := by
  induction args generalizing b n s t with
  | nil => exact h
  | cons arg rest ih =>
    intro binding counting
    simp only [binding, counting, foldlM_cons, ofRule_bind, run_bind]
    refine ih (bindArgument_together hplain h (hargs [] arg rest rfl)) fun before later after heq => ?_
    have hlater := hargs (arg :: before) later after (by rw [heq, cons_append])
    simpa only [foldlM_cons, ofRule_bind, run_bind] using hlater

omit hplain

def Adds (env : Env) (added : List Diagnostic) (x : Rule Unit) : Prop :=
  ∀ s, ((ofRule env x).run s).2.diagnostics.entries.toList =
    s.diagnostics.entries.toList ++ added

lemma Adds.bind {first second : List Diagnostic} {x y : Rule Unit} (hx : Adds env first x)
    (hy : Adds env second y) : Adds env (first ++ second) (x >>= fun _ => y) := by
  intro s
  rw [ofRule_bind, run_bind, hy, hx, append_assoc]

lemma report_adds (finding : Finding) (span : Span) :
    Adds env [finding.toDiagnostic span] (report finding span) :=
  fun s => s.diagnostics.toList_push (finding.toDiagnostic span)

lemma reportIf_adds (condition : Bool) (finding : Finding) (span : Span) :
    Adds env (if condition then [finding.toDiagnostic span] else []) (reportIf condition finding span) := by
  cases condition with
  | true => exact report_adds finding span
  | false => exact fun s => (append_nil _).symm

lemma forM_reportIf_adds {β : Type} (condition : β → Bool) (finding : β → Finding) (span : Span)
    (items : List β) :
    Adds env ((items.filter condition).map fun item => (finding item).toDiagnostic span)
      (items.forM fun item => reportIf (condition item) (finding item) span) := by
  induction items with
  | nil => exact fun s => (append_nil _).symm
  | cons item rest ih =>
    have hsplit : (((item :: rest).filter condition).map fun item => (finding item).toDiagnostic span) =
        (if condition item then [(finding item).toDiagnostic span] else []) ++
          (rest.filter condition).map fun item => (finding item).toDiagnostic span := by
      by_cases h : condition item <;> simp [h]
    rw [hsplit]
    exact (reportIf_adds _ _ span).bind ih

lemma missing_eq_nil_iff (hplain : PlainParams params) (hcounts : b.Counts params n) :
    (params.filter fun param => param.isRequired && !b.supplied.contains param.name) = [] ↔
      params.length ≤ n.supplied := by
  rw [filter_eq_nil_iff]
  constructor
  · intro hall
    by_contra hlt
    have hplace : n.supplied < params.length := Nat.lt_of_not_le hlt
    have hmem : params[n.supplied] ∈ params := getElem_mem hplace
    apply hall _ hmem
    rw [next_not_supplied hplain hcounts hplace, hplain.isRequired hmem]
    rfl
  · intro hle param hparam
    have hsupplied : param.name ∈ b.supplied := by
      rw [hcounts.supplied, take_of_length_le hle]
      exact mem_map_of_mem hparam
    simp [hsupplied]

lemma reportMissing_adds (env : Env) (callee : String) (hplain : PlainParams params)
    (hcounts : b.Counts params n) (span : Span) :
    ∃ added, Adds env added (reportMissing ⟨callee, params⟩ b span) ∧ mismatchSpans added = [] ∧
      (added = [] ↔ params.length ≤ n.supplied) := by
  have hmissing : reportMissing ⟨callee, params⟩ b span = params.forM fun param =>
      reportIf (param.isRequired && !b.supplied.contains param.name)
        (.missingArgument param.name callee) span := by
    simp only [reportMissing, hcounts.bindsAll, Bool.false_eq_true, if_false]
  rw [hmissing]
  refine ⟨_, forM_reportIf_adds _ _ span params, ?_, ?_⟩
  · simp [mismatchSpans, filter_map, Function.comp_def, toDiagnostic, code]
  · rw [map_eq_nil_iff, missing_eq_nil_iff hplain hcounts]

lemma reportCount_adds (env : Env) (hn : n.anyFilled = false) (types : List Ty) (span : Span) :
    ∃ added, Adds env added (reportCount types n span) ∧ mismatchSpans added = [] ∧
      (added = [] ↔ n.supplied = types.length) := by
  simp only [reportCount, hn, Bool.false_eq_true, if_false]
  by_cases hmany : types.length < n.supplied
  · simp only [hmany, if_true]
    refine ⟨_, report_adds _ span, ?_, ?_⟩
    · simp [mismatchSpans, toDiagnostic, code]
    · simp; omega
  · simp only [hmany, if_false]
    refine ⟨_, reportIf_adds _ _ span, ?_, ?_⟩
    · by_cases hfew : n.supplied < types.length <;>
        simp [hfew, mismatchSpans, toDiagnostic, code]
    · simp; omega

lemma Together.finish (env : Env) (callee : String) (hplain : PlainParams params)
    (h : Together params base b n s t) (span other : Span) :
    let binding := (ofRule env (reportMissing ⟨callee, params⟩ b span)).run s
    let counting := (ofRule env (reportCount (params.map (·.ty)) n other)).run t
    ∃ first second, binding.2.diagnostics.entries.toList = base ++ first ∧
      counting.2.diagnostics.entries.toList = base ++ second ∧
      (first = [] ↔ second = []) ∧ mismatchSpans first = mismatchSpans second := by
  intro binding counting
  obtain ⟨first, second, hs, ht, hspans, hnone⟩ := h.inStep.reported
  obtain ⟨missing, hmissing, hmissingSpans, hmissingNone⟩ :=
    reportMissing_adds env callee hplain h.counts span
  obtain ⟨count, hcount, hcountSpans, hcountNone⟩ :=
    reportCount_adds env h.counts.countsAll (params.map (·.ty)) other
  refine ⟨first ++ missing, second ++ count, ?_, ?_, ?_, ?_⟩
  · rw [← append_assoc, ← hs]
    exact hmissing s
  · rw [← append_assoc, ← ht]
    exact hcount t
  · have hexact : n.supplied = params.length ↔
        ¬params.length < n.supplied ∧ params.length ≤ n.supplied := by omega
    simp only [append_eq_nil_iff, hnone, hmissingNone, hcountNone, length_map, hexact,
      and_assoc]
  · simp only [mismatchSpans_append, hspans, hmissingSpans, hcountSpans]

lemma bindArguments_countArguments (hplain : PlainParams params) {args : List Argument}
    (hquiet : s.quiet = t.quiet) (hdiagnostics : s.diagnostics = t.diagnostics)
    (hargs : AllGivePlaces env ⟨callee, params⟩ (.start ⟨callee, params⟩) s args) (span other : Span) :
    let binding := (ofRule env (bindArguments env ⟨callee, params⟩ args span)).run s
    let counting := (ofRule env (countArguments env (params.map (·.ty)) args other)).run t
    ∃ first second, binding.2.diagnostics.entries.toList = s.diagnostics.entries.toList ++ first ∧
      counting.2.diagnostics.entries.toList = t.diagnostics.entries.toList ++ second ∧
      (first = [] ↔ second = []) ∧ mismatchSpans first = mismatchSpans second := by
  intro binding counting
  have hstart : Together params s.diagnostics.entries.toList (.start ⟨callee, params⟩) {} s t := by
    have hfree : (Signature.mk callee params).positional = params :=
      filter_eq_self.mpr fun param hparam => by simp [hplain.positional param hparam]
    refine ⟨⟨hfree, by simp [Binding.start], rfl, rfl⟩, hquiet, [], [], ?_⟩
    exact ⟨by simp, by simp [hdiagnostics], rfl, by simp⟩
  have hend := bindAll_together hplain args hstart hargs
  have hfinish := hend.finish env callee hplain span other
  simpa only [binding, counting, bindArguments, countArguments, ofRule_bind, run_bind,
    ← hdiagnostics] using hfinish

end Rule

structure Symbol.PlainFunction (declared : Symbol) (result : Ty) : Prop where
  kind : declared.kind = .function
  params : PlainParams declared.params
  ty : declared.ty = some (.fn (declared.params.map (·.ty)) result)

structure State.Tracks (s : State) (name : String) (ty : Ty) : Prop where
  value : ∃ id, s.scopes.lookupValue name = some id ∧ (s.symbols.get id).kind = .value
  ty : s.scopes.valueType s.symbols name = .ok (some ty)

namespace Check

lemma resolveCallee_function (hkind : env.exprKind id = .name name) {declared : SymbolId}
    (hname : s.scopes.lookupValue name = some declared)
    (hplain : (s.symbols.get declared).PlainFunction result) :
    let function := s.symbols.get declared
    (ofRule env (resolveCallee env id)).run s = (.bound ⟨function.name, function.params⟩ result,
      ((Action.record id (.fn (function.params.map (·.ty)) result)).step s).2) := by
  intro function
  have hsymbol : (ofRule env (symbol declared)).run s = (function, s) := rfl
  simp only [resolveCallee, hkind, nameCallee, ofRule_bind, run_bind, run_lookupValue hname,
    hsymbol, function, hplain.kind, functionCallee, Symbol.tyOrUnknown, hplain.ty, Option.getD_some]
  rfl

variable {params : List Ty}

lemma resolveCallee_tracked (hkind : env.exprKind id = .name name)
    (htracks : s.Tracks name (.fn params result)) : (ofRule env (resolveCallee env id)).run s =
      (.unnamed params result, ((Action.record id (.fn params result)).step s).2) := by
  obtain ⟨⟨declared, hname, hvalue⟩, hty⟩ := htracks
  have hstep : (Action.lookupValueType name).step s = (some (.fn params result), s) := by
    simp only [Action.step, hty]
  have hsymbol : (ofRule env (symbol declared)).run s = (s.symbols.get declared, s) := rfl
  simp only [resolveCallee, hkind, nameCallee, ofRule_bind, run_bind, run_lookupValue hname,
    hsymbol, hvalue, valueCallee, run_visit_name hkind hstep]
  rfl

lemma callType_unnamed {callee : ExprId}
    (hcallee : ((ofRule env (resolveCallee env callee)).run s).1 = .unnamed params result)
    (args : List Argument) (span : Span) : (ofRule env (callType env callee args span)).run s =
      (result, ((ofRule env (countArguments env params args span)).run
        ((ofRule env (resolveCallee env callee)).run s).2).2) := by
  simp only [callType, ofRule_bind, run_bind, hcallee]
  rfl

/-- What two checks report from a state on: the one reports something just if the other does, and the
mismatches are in the same places in the same order. -/
def ReportsLike (x y : Check Ty) (s : State) : Prop :=
  ∃ first second, (x.run s).2.diagnostics.entries.toList = s.diagnostics.entries.toList ++ first ∧
    (y.run s).2.diagnostics.entries.toList = s.diagnostics.entries.toList ++ second ∧
    (first = [] ↔ second = []) ∧ mismatchSpans first = mismatchSpans second

/-- In any state, where a function with plain parameters and a written result goes by one name and a value
goes by another and is tracked with the type of the function, both are called with the same arguments. The
arguments are positional, or they spread tuples, written out or found to be of a tuple type when their turn
comes. Then the one call reports something just if the other does, mismatches are in the same places in
the same order, and both calls come to the same type. Neither gives up where the way down from the
arguments ends. -/
theorem callType_function_or_value {s : State} {function value : String} {declared : SymbolId} {result : Ty}
    (hfunction : s.scopes.lookupValue function = some declared)
    (hplain : (s.symbols.get declared).PlainFunction result)
    (hvalue : s.Tracks value (.fn ((s.symbols.get declared).params.map (·.ty)) result))
    {callee other : ExprId} (hcallee : env.exprKind callee = .name function)
    (hother : env.exprKind other = .name value) {args : List Argument}
    (hargs : Rule.AllGivePlaces env ⟨(s.symbols.get declared).name, (s.symbols.get declared).params⟩
      (.start ⟨(s.symbols.get declared).name, (s.symbols.get declared).params⟩)
      ((ofRule env (Rule.resolveCallee env callee)).run s).2 args) (span otherSpan : Span) :
    let binding := ofRule env (Rule.callType env callee args span)
    let counting := ofRule env (Rule.callType env other args otherSpan)
    (binding.run s).1 = result ∧ (counting.run s).1 = result ∧ binding.ReportsLike counting s ∧
      ((∀ arg ∈ args, env.program.AcyclicExpr arg.value) →
        binding.Along (fun action _ => action.Proceeds) s ∧
          counting.Along (fun action _ => action.Proceeds) s) := by
  intro binding counting
  have hbound := resolveCallee_function hcallee hfunction hplain
  have hunnamed := resolveCallee_tracked hother hvalue
  have hbinding := callType_bound (congrArg fst hbound) args span
  have hcounting := callType_unnamed (congrArg fst hunnamed) args otherSpan
  refine ⟨congrArg fst hbinding, congrArg fst hcounting, ?_, fun hacyclic => ?_⟩
  · -- To find what is called only records its type, so both calls start from the same diagnostics.
    have hquiet (ty : Ty) : ((Action.record callee ty).step s).2.quiet =
        ((Action.record other ty).step s).2.quiet := rfl
    rw [hbound] at hargs
    simp only [ReportsLike, binding, counting, hbinding, hcounting, hbound, hunnamed]
    exact Rule.bindArguments_countArguments hplain.params (hquiet _) rfl hargs span otherSpan
  · have hends : ∀ arg ∈ args, env.program.ExprEnds arg.value :=
      fun arg harg => (hacyclic arg harg).ends
    exact ⟨callType_proceeds (acyclicExpr_of_name hcallee).ends hends span s,
      callType_proceeds (acyclicExpr_of_name hother).ends hends otherSpan s⟩

/-- A function and a value of its type, and arguments for them: a pair that is spread, and one more. -/
def functionSample : Env where
  program := { expressions := #[⟨{}, .name "f"⟩, ⟨{}, .name "g"⟩, ⟨{}, .name "pair"⟩,
    ⟨{}, .literal (.int "1")⟩] }
  options := {}

theorem callType_function_or_value_sample :
    let params : List ParamInfo := [{ name := "n", ty := .prim .i32 }, { name := "flag", ty := .bool }]
    let s : State := {
      symbols := ⟨#[
        { name := "f", kind := .function, params, ty := some (.fn (params.map (·.ty)) .string) },
        { name := "g", kind := .value, ty := some (.fn (params.map (·.ty)) .string) },
        { name := "pair", kind := .value, ty := some (.tuple [.string, .bool]) }]⟩
      scopes := { inner := { values := [("f", ⟨0⟩), ("g", ⟨1⟩), ("pair", ⟨2⟩)] } } }
    let args : List Argument :=
      [{ kind := .spread, value := ⟨2⟩ }, { kind := .positional, value := ⟨3⟩ }]
    let binding := ofRule functionSample (Rule.callType functionSample ⟨0⟩ args {})
    let counting := ofRule functionSample (Rule.callType functionSample ⟨1⟩ args {})
    (s.symbols.get ⟨0⟩).PlainFunction .string ∧ s.Tracks "g" (.fn (params.map (·.ty)) .string) ∧
      Rule.AllGivePlaces functionSample ⟨"f", params⟩ (.start ⟨"f", params⟩)
        ((ofRule functionSample (Rule.resolveCallee functionSample ⟨0⟩)).run s).2 args ∧
      (binding.run s).1 = .string ∧ (counting.run s).1 = .string ∧ binding.ReportsLike counting s ∧
      binding.Along (fun action _ => action.Proceeds) s ∧
      counting.Along (fun action _ => action.Proceeds) s := by
  intro params s args binding counting
  have hplain : (s.symbols.get ⟨0⟩).PlainFunction .string :=
    ⟨rfl, ⟨by decide, by decide, by decide, by decide⟩, rfl⟩
  have htracks : s.Tracks "g" (.fn (params.map (·.ty)) .string) := ⟨⟨⟨1⟩, rfl, rfl⟩, rfl⟩
  have hfunction : s.scopes.lookupValue "f" = some ⟨0⟩ := rfl
  have hcallee : functionSample.exprKind ⟨0⟩ = .name "f" := rfl
  have hother : functionSample.exprKind ⟨1⟩ = .name "g" := rfl
  have hpair : functionSample.exprKind ⟨2⟩ = .name "pair" := rfl
  have hargs : Rule.AllGivePlaces functionSample ⟨"f", params⟩ (.start ⟨"f", params⟩)
      ((ofRule functionSample (Rule.resolveCallee functionSample ⟨0⟩)).run s).2 args := by
    rw [resolveCallee_function hcallee hfunction hplain]
    intro before arg after hsplit
    rcases before with _ | ⟨first, _ | ⟨second, rest⟩⟩
    · obtain ⟨rfl, -⟩ := cons_eq_cons.mp hsplit
      exact .inr ⟨rfl, .inr ⟨[.string, .bool], congrArg fst (run_visit_name hpair rfl none)⟩⟩
    · obtain ⟨rfl, -⟩ := cons_eq_cons.mp (cons_eq_cons.mp hsplit).2
      exact .inl rfl
    · simp [args] at hsplit
  obtain ⟨hbinding, hcounting, hreports, hproceeds⟩ :=
    callType_function_or_value hfunction hplain htracks hcallee hother hargs {} {}
  exact ⟨hplain, htracks, hargs, hbinding, hcounting, hreports,
    hproceeds fun _ _ a _ => Program.exprs_acyclic_of_descending (by decide) a⟩

end Check

end StaticTyping
