import StaticTyping.Proofs.Mirror.Same

/-! What the condition policy decides: which conditions are reported, and nothing else. A stricter
policy reports at least as many. -/

namespace StaticTyping

open List Mirror

/-- The diagnostics about conditions, and those about anything else. -/
def Report.conditions (r : Report) : List Diagnostic :=
  r.diagnostics.entries.toList.filter (·.code == .conditionType)

def Report.withoutConditions (r : Report) : List Diagnostic :=
  r.diagnostics.entries.toList.filter (·.code != .conditionType)

lemma Rule.acceptsCondition_truthy {ty : Ty} (h : acceptsCondition .bool ty) :
    acceptsCondition .truthy ty := by
  simp only [acceptsCondition, Bool.or_eq_true] at h ⊢
  cases ty with
  | prim p =>
    have hbool : (Ty.prim p).same (.prim .bool) := h.resolve_left (by simp [Ty.isAbsorbing])
    obtain rfl : p = .bool := by simpa [Ty.same] using hbool
    rfl
  | param | error | unknown => rfl
  | named | union | tuple | fn =>
    exact absurd (h.resolve_left (by simp [Ty.isAbsorbing])) (by simp [BEq.beq, Ty.bool, Ty.same])

/-- Two runs under two policies: all but the reports about conditions is the same, and these are as
the policies say. -/
structure PolicyOutput (policy policy' : ConditionPolicy) (ds es : List Diagnostic) : Prop where
  others : ds.filter (·.code != .conditionType) = es.filter (·.code != .conditionType)
  any : policy = .any → ds.filter (·.code == .conditionType) = []
  stricter : policy = .truthy → policy' = .bool →
    ((ds.filter (·.code == .conditionType)).map (·.span)).Sublist
      ((es.filter (·.code == .conditionType)).map (·.span))

namespace PolicyOutput

variable {policy policy' : ConditionPolicy} {ds es ds' es' : List Diagnostic}

lemma same {d : Diagnostic} (h : d.code ≠ .conditionType) :
    PolicyOutput policy policy' [d] [d] where
  others := rfl
  any _ := by simp [h]
  stricter _ _ := .refl _

lemma append (h : PolicyOutput policy policy' ds es) (h' : PolicyOutput policy policy' ds' es') :
    PolicyOutput policy policy' (ds ++ ds') (es ++ es') where
  others := by rw [filter_append, filter_append, h.others, h'.others]
  any hany := by rw [filter_append, h.any hany, h'.any hany, append_nil]
  stricter htruthy hbool := by
    simp only [filter_append, map_append]
    exact (h.stricter htruthy hbool).append (h'.stricter htruthy hbool)

lemma condition (policy policy' : ConditionPolicy) (ty : Ty) (span : Span) :
    PolicyOutput policy policy' (conditionReports policy ty span)
      (conditionReports policy' ty span) where
  others := by
    have hnone : ∀ policy, (conditionReports policy ty span).filter (·.code != .conditionType) = [] := by
      intro policy
      unfold conditionReports
      split <;> rfl
    rw [hnone, hnone]
  any h := by
    subst h
    rfl
  stricter htruthy hbool := by
    subst htruthy hbool
    unfold conditionReports
    by_cases hstrict : Rule.acceptsCondition .bool ty = true
    · rw [if_pos (Rule.acceptsCondition_truthy hstrict)]
      exact nil_sublist _
    · rw [if_neg hstrict]
      split
      · exact nil_sublist _
      · exact .refl _

end PolicyOutput

def policyOutputs (policy policy' : ConditionPolicy) : Outputs True where
  holds := PolicyOutput policy policy'
  nil := ⟨rfl, fun _ => rfl, fun _ _ => .refl _⟩
  append := .append
  report _ hordinary := .same (Finding.isOrdinary_iff.mp hordinary).2
  cycle _ _ _ := .same (by simp [Finding.toDiagnostic, Finding.code])

def policyMirror (policy policy' : ConditionPolicy) : Mirror :=
  .identity (fun _ => False) (policyOutputs policy policy')

lemma check_policies (p : Program) (options : Options) (imports : List Ident)
    (policy policy' : ConditionPolicy) :
    (check p { options with conditionPolicy := policy } imports).types =
        (check p { options with conditionPolicy := policy' } imports).types ∧
      PolicyOutput policy policy'
        (check p { options with conditionPolicy := policy } imports).diagnostics.entries.toList
        (check p { options with conditionPolicy := policy' } imports).diagnostics.entries.toList := by
  have hcondition {a b : Ty} (span : Span) (h : a.Mirrors (policyMirror policy policy').toPairing b) :
      (policyMirror policy policy').output (conditionReports policy a span)
        (conditionReports policy' b span) := by
    obtain rfl := eq_of_mirrors h
    exact PolicyOutput.condition policy policy' a span
  let T : StmtTwins (policyMirror policy policy') ⟨p, { options with conditionPolicy := policy }⟩
      ⟨p, { options with conditionPolicy := policy' }⟩ :=
    .same identity_reflects p.items ⟨rfl, rfl, rfl⟩ hcondition (fun _ => True)
      (fun _ _ => trivial) (fun _ => trivial) fun _ _ => .inl trivial
  obtain ⟨hout, htypes⟩ := check_mirrors T steady_heeds identity_context
    (fun _ => rfl) (fun _ h => h) rfl (fun _ _ => ⟨fun _ => rfl, trivial⟩)
    (fun id _ a b ha hb => ⟨trivial, by cases ha.symm.trans hb; rfl, fun _ _ => .inr trivial⟩)
    fun _ _ => trivial
  refine ⟨?_, hout⟩
  have hlog := htypes.imp fun _ _ h => Prod.ext h.1 (eq_of_mirrors h.2)
  rw [forall₂_eq_eq_eq] at hlog
  exact congrArg TypeTable.mk hlog

/-- The condition policy decides nothing but which conditions are reported: none under `any`, and under
`bool` at least those that are reported under `truthy`. -/
theorem check_conditionPolicy (p : Program) (options : Options) (imports : List Ident) :
    let run policy := check p { options with conditionPolicy := policy } imports
    (∀ policy policy', (run policy).types = (run policy').types ∧
      (run policy).withoutConditions = (run policy').withoutConditions) ∧
    (run .any).conditions = [] ∧
    ((run .truthy).conditions.map (·.span)).Sublist ((run .bool).conditions.map (·.span)) :=
  ⟨fun policy policy' =>
      have h := check_policies p options imports policy policy'
      ⟨h.1, h.2.others⟩,
    (check_policies p options imports .any .any).2.any rfl,
    (check_policies p options imports .truthy .bool).2.stricter rfl rfl⟩

end StaticTyping
