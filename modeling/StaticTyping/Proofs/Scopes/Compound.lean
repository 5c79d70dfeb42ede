import StaticTyping.Proofs.Output.Sequence
import StaticTyping.Proofs.Relation
import StaticTyping.Proofs.Scopes.Assignment

/-! Compound assignments. To assign with an operator is to assign the result of the operator, as long as
the name has its declared type: the operator is applied to the declared type of its target, whatever that
is narrowed to. -/

namespace StaticTyping

open State Check List StaticTyping.Action Program ScopeStack

variable {left id : ExprId} {op : BinaryOp} {s t : State} {name : String}

/-- The same codes in the same order, at whatever places. -/
def Diagnostics.SameCodes (ds es : Diagnostics) : Prop :=
  ds.entries.toList.map (·.code) = es.entries.toList.map (·.code)

namespace Diagnostics.SameCodes

variable {ds es : Diagnostics}

lemma size_eq (h : SameCodes ds es) : ds.size = es.size := by
  simpa [Diagnostics.size_eq] using congrArg length h

lemma push (h : SameCodes ds es) {d e : Diagnostic} (hcode : d.code = e.code) :
    SameCodes (ds.push d) (es.push e) := by
  simp only [SameCodes, toList_push, map_append, map_cons, map_nil, hcode]
  rw [h]

lemma hoist (h : SameCodes ds es) (start middle : Nat) :
    SameCodes (ds.hoist start middle) (es.hoist start middle) := by
  have hlength : ds.entries.toList.length = es.entries.toList.length := by
    simpa using congrArg length h
  simp only [SameCodes, toList_hoist, hlength, apply_ite (map Diagnostic.code), map_hoisted]
  rw [h]

end Diagnostics.SameCodes

/-- The states differ in recorded types and in the places and texts of what was reported. -/
abbrev State.ReportAlike : State → State → Prop :=
  DiffersIn (fun _ _ => True) Diagnostics.SameCodes

lemma State.reportAlike_unnoticed : Unnoticed ReportAlike :=
  DiffersIn.unnoticed (fun _ _ _ _ _ => trivial) (fun _ _ _ h => h.push rfl)
    (fun _ _ start middle h => h.hoist start middle) fun _ _ h => h.size_eq

lemma ScopeStack.tracked?_of_lookupValue {scopes : ScopeStack} {symbol : SymbolId}
    (hbound : scopes.lookupValue name = some symbol) :
    scopes.tracked? name = some (.declared symbol) ∨ ∃ ty, scopes.tracked? name = some (.narrowed ty) := by
  unfold lookupValue at hbound
  unfold tracked?
  revert hbound
  induction scopes.frames with
  | nil => exact fun hbound => nomatch hbound
  | cons frame rest ih =>
    simp only [findSome?_cons, Frame.tracked?]
    cases frame.narrowed.lookup name with
    | some ty => exact fun _ => .inr ⟨ty, rfl⟩
    | none =>
      cases frame.values.lookup name with
      | some id =>
        intro hbound
        cases hbound
        exact .inl rfl
      | none => exact ih

/-- The name is bound to the symbol, and if it is narrowed, then to the declared type. -/
structure State.ReadsDeclared (s : State) (name : String) (symbol : SymbolId) : Prop where
  bound : s.scopes.lookupValue name = some symbol
  narrowed (ty : Ty) : s.scopes.tracked? name = some (.narrowed ty) →
    ty = (s.symbols.get symbol).tyOrUnknown

namespace State.ReadsDeclared

variable {s t : State} {name : String} {symbol : SymbolId}

lemma of_not_narrowed (hbound : s.scopes.lookupValue name = some symbol)
    (hnarrowed : s.scopes.isNarrowed name = false) : s.ReadsDeclared name symbol := by
  refine ⟨hbound, fun ty htracked => ?_⟩
  simp [isNarrowed, htracked] at hnarrowed

lemma congr (h : s.ReadsDeclared name symbol) (hscopes : t.scopes = s.scopes)
    (hsymbols : t.symbols = s.symbols) : t.ReadsDeclared name symbol := by
  refine ⟨?_, fun ty => ?_⟩
  · rw [hscopes]
    exact h.bound
  · rw [hscopes, hsymbols]
    exact h.narrowed ty

lemma step_lookupValueType (h : s.ReadsDeclared name symbol) :
    (lookupValueType name).step s = (some (s.symbols.get symbol).tyOrUnknown, s) := by
  rcases tracked?_of_lookupValue h.bound with htracked | ⟨ty, htracked⟩
  · simp only [step, valueType, htracked, SymbolTable.get]
    cases s.symbols.get? symbol <;> rfl
  · simp only [step, valueType, htracked, h.narrowed ty htracked]

end State.ReadsDeclared

lemma State.ReportAlike.recorded (h : ReportAlike s t) (id : ExprId) (ty : Ty) :
    ReportAlike s { t with types := t.types.record id ty } :=
  ⟨by rw [h.rest], trivial, h.diagnostics⟩

/-- An assignment to a name with an operator, and the assignment of what the operator gives, with the same
value on the right. -/
structure SpelledOut (env : Env) (op : BinaryOp) (name : String) (value compound plain : ExprId) :
    Prop where
  compound : ∃ target, env.exprKind compound = .assign (some op) target value ∧
    env.exprKind target = .name name
  plain : ∃ target operation left, env.exprKind plain = .assign none target operation ∧
    env.exprKind target = .name name ∧ env.exprKind operation = .binary op left value ∧
    env.exprKind left = .name name

namespace Rule

variable {env : Env} {name : String} {symbol : SymbolId} {declared : Ty}

lemma relates_report {finding other : Finding} (hcode : finding.code = other.code) (span place : Span) :
    Relates env ReportAlike (report finding span) (report other place)
      (Same ReportAlike) := by
  rintro s t ⟨hrest, -, hdiagnostics⟩
  generalize t.types = types at hrest
  generalize t.diagnostics = diagnostics at hrest hdiagnostics
  subst hrest
  exact ⟨rfl, rfl, trivial, hdiagnostics.push hcode⟩

lemma relates_reportIf (condition : Bool) {finding other : Finding} (hcode : finding.code = other.code)
    (span place : Span) :
    Relates env ReportAlike (reportIf condition finding span) (reportIf condition other place)
      (Same ReportAlike) := by
  cases condition with
  | true => exact relates_report hcode span place
  | false => exact .pure fun _ _ hst => ⟨rfl, hst⟩

lemma relates_reportAny (finding : Option Finding) (span place : Span) :
    Relates env ReportAlike (reportAny finding span) (reportAny finding place)
      (Same ReportAlike) := by
  cases finding with
  | some finding => exact relates_report rfl span place
  | none => exact .pure fun _ _ hst => ⟨rfl, hst⟩

lemma relates_arithmeticType (op : BinaryOp) (left right : Ty) (span place : Span) :
    Relates env ReportAlike (arithmeticType op left right span)
      (arithmeticType op left right place) (Same ReportAlike) := by
  have hpure (ty : Ty) : Relates env ReportAlike (pure ty : Rule Ty) (pure ty)
      (Same ReportAlike) := .pure fun _ _ hst => ⟨rfl, hst⟩
  unfold arithmeticType
  split
  · exact hpure _
  split
  · exact hpure _
  split
  · split
    · exact hpure _
    · exact (relates_report rfl span place).bindSame fun _ => hpure _
  split
  · exact hpure _
  · exact (relates_report rfl span place).bindSame fun _ => hpure _

lemma relates_record (id other : ExprId) (ty : Ty) :
    Relates env ReportAlike (do record id ty; return ty) (do record other ty; return ty)
      (Same ReportAlike) := by
  intro s t hst
  refine ⟨rfl, ?_, trivial, hst.diagnostics⟩
  show ({ t with types := _ } : State) = _
  rw [hst.rest]
  rfl

lemma Relates.visit {P : State → State → Prop} {Q : Ty → Ty → State → State → Prop} {role other : Role}
    {place : ExprId} (hid : env.program.ExprEnds id) (hplace : env.program.ExprEnds place)
    (h : Relates env P (expression env role id) (expression env other place) Q) :
    Relates env P (visit role id) (visit other place) Q := by
  intro s t hst
  rw [ofRule_visit role hid, ofRule_visit other hplace]
  exact h s t hst

def Reading (name : String) (symbol : SymbolId) (declared : Ty) (s t : State) : Prop :=
  ReportAlike s t ∧ s.ReadsDeclared name symbol ∧ (s.symbols.get symbol).tyOrUnknown = declared

lemma Reading.readsDeclared (h : Reading name symbol declared s t) :
    t.ReadsDeclared name symbol ∧ (t.symbols.get symbol).tyOrUnknown = declared := by
  obtain ⟨hst, hreads, hty⟩ := h
  have hscopes : t.scopes = s.scopes := by rw [hst.rest]
  have hsymbols : t.symbols = s.symbols := by rw [hst.rest]
  exact ⟨hreads.congr hscopes hsymbols, hsymbols ▸ hty⟩

lemma run_nameTarget (hbound : s.scopes.lookupValue name = some symbol) (span : Span) :
    (ofRule env (nameTarget name span)).run s =
      ((s.symbols.get symbol).tyOrUnknown, ((ofRule env
        (reportAny ((s.symbols.get symbol).assignmentFinding? name) span)).run s).2) := by
  unfold nameTarget
  rw [ofRule_bind, run_bind, run_lookupValue hbound]
  simp only [ofRule_bind, run_bind]
  rfl

lemma relates_nameTarget (span place : Span) :
    Relates env (Reading name symbol declared) (nameTarget name span) (nameTarget name place)
      fun a b s t => (a = declared ∧ b = declared) ∧ Reading name symbol declared s t := by
  intro s t h
  obtain ⟨hreads, hty⟩ := h.readsDeclared
  have hsymbols : s.symbols = t.symbols := by rw [h.1.rest]
  rw [run_nameTarget h.2.1.bound, run_nameTarget hreads.bound, hsymbols]
  have hreport : Relates env ReportAlike _ _ _ :=
    relates_reportAny ((t.symbols.get symbol).assignmentFinding? name) span place
  refine ⟨⟨hty, hty⟩, (hreport s t h.1).2, ?_⟩
  cases (t.symbols.get symbol).assignmentFinding? name <;>
    exact ⟨h.2.1.congr rfl rfl, h.2.2⟩

lemma relates_target {target other : ExprId} (htarget : env.exprKind target = .name name)
    (hother : env.exprKind other = .name name) :
    Relates env (Reading name symbol declared) (visit .target target) (visit .target other)
      fun a b s t => (a = declared ∧ b = declared) ∧ Reading name symbol declared s t := by
  refine .visit (acyclicExpr_of_name htarget).ends (acyclicExpr_of_name hother).ends ?_
  simp only [expression, roleType, targetType, htarget, hother]
  refine (relates_nameTarget _ _).bind fun a b => .assume ?_
  rintro ⟨rfl, rfl⟩ s t h
  have hrecord : Relates env ReportAlike _ _ _ := relates_record target other b
  exact ⟨⟨rfl, rfl⟩, (hrecord s t h.1).2, h.2.1.congr rfl rfl, h.2.2⟩

lemma operandTypes_of_name (hleft : env.exprKind left = .name name) (right : ExprId) (hint : Option Ty) :
    operandTypes env left right hint = do
      let leftType ← visit (.value hint) left
      let rightType ← visit (.value (some leftType)) right
      return (leftType, rightType) := by
  have hliteral : env.program.isLiteral left = false := by
    have hkind : (env.program.expr left).kind = .name name := hleft
    simp only [isLiteral, ungroup_of_name hkind, hkind]
  simp only [operandTypes, hliteral, Bool.false_and, Bool.false_eq_true, if_false]

variable (hop : op.operandCode? = some .arithmeticOperand)

include hop

/-- The operator is applied to the same two types, once by the assignment and once as an expression of its
own. -/
lemma relates_operation {operation right : ExprId}
    (hkind : env.exprKind operation = .binary op left right) (hleft : env.exprKind left = .name name)
    (hends : env.program.ExprEnds operation) (span : Span) :
    Relates env (Reading name symbol declared)
      (visit (.value (some declared)) right >>= fun found => arithmeticType op declared found span)
      (visit (.value (some declared)) operation) (Same ReportAlike) := by
  intro s t h
  obtain ⟨hreads, hty⟩ := h.readsDeclared
  rw [ofRule_visit _ hends]
  simp only [expression, roleType, valueType, hkind, binaryType_eq_arithmetic hop,
    operandTypes_of_name hleft, bind_assoc, pure_bind]
  rw [ofRule_bind env (visit _ left), run_bind, run_visit_name hleft
    (hty ▸ hreads.step_lookupValueType)]
  -- From here on only the operation has something to record.
  refine Relates.andThen reportAlike_unnoticed (visit _ right) (fun found => ?_) s _
    (h.1.recorded left declared)
  rw [← bind_pure (arithmeticType op declared found span)]
  refine (relates_arithmeticType op declared found span _).bind fun a b => .assume ?_
  rintro rfl u v huv
  exact ⟨rfl, huv.recorded operation a⟩

lemma relates_assignmentType {target other value operation : ExprId}
    (htarget : env.exprKind target = .name name)
    (hother : env.exprKind other = .name name) (hkind : env.exprKind operation = .binary op left value)
    (hleft : env.exprKind left = .name name) (hends : env.program.ExprEnds operation) (span place : Span) :
    Relates env (Reading name symbol declared) (assignmentType env (some op) target value span)
      (assignmentType env none other operation place) (Same ReportAlike) := by
  refine (relates_target htarget hother).bind fun a b => .assume ?_
  rintro ⟨rfl, rfl⟩
  refine (relates_operation hop hkind hleft hends span).bindSame fun assigned => ?_
  refine (relates_reportIf _ rfl _ _).bindSame fun _ => ?_
  simp only [endNarrowing, htarget, hother]
  exact .refl reportAlike_unnoticed _

/-- The whole rule, as a value and as a target, which no assignment is. -/
lemma relates_spelledOut {value compound plain : ExprId}
    (hspelled : SpelledOut env op name value compound plain) (hvalue : env.program.AcyclicExpr value)
    (role : Role) :
    Relates env (Reading name symbol declared) (visit role compound) (visit role plain)
      (Same ReportAlike) := by
  obtain ⟨target, hcompound, htarget⟩ := hspelled.compound
  obtain ⟨other, operation, left, hplain, hother, hkind, hleft⟩ := hspelled.plain
  have hoperation : env.program.AcyclicExpr operation :=
    .of_pair (congrArg ExprKind.children hkind) (acyclicExpr_of_name hleft) hvalue
  have hassign {id target value : ExprId} {op : Option BinaryOp}
      (hid : env.exprKind id = .assign op target value) (htarget : env.exprKind target = .name name)
      (hvalue : env.program.AcyclicExpr value) : env.program.AcyclicExpr id :=
    .of_pair (congrArg ExprKind.children hid) (acyclicExpr_of_name htarget) hvalue
  refine .visit (hassign hcompound htarget hvalue).ends (hassign hplain hother hoperation).ends ?_
  have hassignment (span place : Span) : Relates env (Reading name symbol declared)
      (assignmentType env (some op) target value span) (assignmentType env none other operation place)
      (Same ReportAlike) :=
    relates_assignmentType hop htarget hother hkind hleft hoperation.ends span place
  refine .bindSame ?_ fun ty => relates_record compound plain ty
  cases role with
  | value hint => simpa only [roleType, valueType, hcompound, hplain] using hassignment _ _
  | target =>
    simp only [roleType, targetType, valueType, hcompound, hplain]
    refine (hassignment _ _).bindSame fun ty => ?_
    exact (relates_report rfl _ _).bindSame fun _ => .pure fun _ _ h => ⟨rfl, h⟩

end Rule

/-- Where a name is bound and reads as declared, to assign to it with an operator is to assign the result
of the operator: the type is the same, and so are the codes of what is reported. -/
theorem compound_assignment_is_sugar {env : Env} {op : BinaryOp} {name : String} {symbol : SymbolId}
    {value compound plain : ExprId} (hop : op.operandCode? = some .arithmeticOperand)
    (hspelled : SpelledOut env op name value compound plain) (hvalue : env.program.AcyclicExpr value)
    {s : State} (hs : s.ReadsDeclared name symbol) (role : Role) :
    ((Check.expr env role compound).run s).1 = ((Check.expr env role plain).run s).1 ∧
      ((Check.expr env role compound).reports s).map (·.code) =
        ((Check.expr env role plain).reports s).map (·.code) := by
  have hvisit (id : ExprId) : Check.ofRule env (Rule.visit role id) = Check.expr env role id :=
    Steps.bind_done _
  have hstart : Rule.Reading name symbol _ s s := ⟨⟨rfl, trivial, rfl⟩, hs, rfl⟩
  have hboth := Rule.relates_spelledOut hop hspelled hvalue role s s hstart
  rw [hvisit, hvisit] at hboth
  exact ⟨hboth.1, by rw [Check.reports, Check.reports, map_drop, map_drop, hboth.2.diagnostics]⟩

/-- Where a number may be `null`, it is increased where it is not, once with an operator and once spelled
out. It is increased in the same two ways where it is not narrowed. -/
def guardedIncrease : Env where
  program := {
    expressions := #[⟨{}, .literal (.int "1")⟩, ⟨{}, .name "x"⟩, ⟨{}, .literal .null⟩,
      ⟨{}, .binary .notEqual ⟨1⟩ ⟨2⟩⟩, ⟨{}, .assign (some .add) ⟨1⟩ ⟨0⟩⟩, ⟨{}, .binary .add ⟨1⟩ ⟨0⟩⟩,
      ⟨{}, .assign none ⟨1⟩ ⟨5⟩⟩]
    statements := #[
      ⟨{}, .bind {
        name := ⟨"x", {}⟩, value := some ⟨0⟩
        type := some (.union {} [.named {} "i32" [], .named {} "null" []]) }⟩,
      ⟨{}, .expr ⟨4⟩⟩,
      ⟨{}, .branch ⟨3⟩ { statements := [⟨1⟩] } none⟩]
    items := [⟨0⟩, ⟨2⟩] }
  options := {}

lemma guardedIncrease_spelledOut : SpelledOut guardedIncrease .add "x" ⟨0⟩ ⟨4⟩ ⟨6⟩ :=
  ⟨⟨⟨1⟩, rfl, rfl⟩, ⟨1⟩, ⟨5⟩, ⟨1⟩, rfl, rfl, rfl, rfl⟩

def declaredState : State := ((stmt guardedIncrease ⟨0⟩).run {}).2

/-- Where the name is not narrowed the operator does not fit its declared type, in either form. -/
theorem compound_assignment_is_sugar_declared :
    SpelledOut guardedIncrease .add "x" ⟨0⟩ ⟨4⟩ ⟨6⟩ ∧ declaredState.ReadsDeclared "x" ⟨0⟩ ∧
      ((Check.expr guardedIncrease (.value none) ⟨4⟩).reports declaredState).map (·.code) =
        [.arithmeticOperand] ∧
      ((Check.expr guardedIncrease (.value none) ⟨6⟩).reports declaredState).map (·.code) =
        [.arithmeticOperand] := by
  have hacyclic : guardedIncrease.program.Acyclic :=
    acyclic_of_indices (by decide) (by decide)
  have hreads : declaredState.ReadsDeclared "x" ⟨0⟩ :=
    .of_not_narrowed (by decide +kernel) (by decide +kernel)
  have hsame := compound_assignment_is_sugar rfl guardedIncrease_spelledOut (hacyclic.expr ⟨0⟩) hreads
    (.value none)
  have hcodes : ((Check.expr guardedIncrease (.value none) ⟨4⟩).reports declaredState).map (·.code) =
      [.arithmeticOperand] := by decide +kernel
  exact ⟨guardedIncrease_spelledOut, hreads, hcodes, hsame.2 ▸ hcodes⟩

def increasedState : State :=
  (((program guardedIncrease []).states {}).find? (·.scopes.isNarrowed "x")).getD {}

/-- Where the name is narrowed to a number, the operator is still applied to the declared type, and only
the spelled out form is accepted. -/
theorem narrowed_compound_assignment :
    increasedState ∈ (Check.program guardedIncrease []).states {} ∧
      SpelledOut guardedIncrease .add "x" ⟨0⟩ ⟨4⟩ ⟨6⟩ ∧
      increasedState.scopes.lookupValue "x" = some ⟨0⟩ ∧
      increasedState.scopes.isNarrowed "x" = true ∧
      ((Check.expr guardedIncrease (.value none) ⟨4⟩).reports increasedState).map (·.code) =
        [.arithmeticOperand] ∧
      (Check.expr guardedIncrease (.value none) ⟨6⟩).reports increasedState = [] := by
  have hmem : increasedState ∈ (Check.program guardedIncrease []).states {} := by
    exact getD_find?_mem (by decide +kernel) _
  exact ⟨hmem, guardedIncrease_spelledOut, by decide +kernel, by decide +kernel, by decide +kernel,
    by decide +kernel⟩

end StaticTyping
