import StaticTyping.Proofs.References
import StaticTyping.Proofs.Visited.Silent
import Mathlib.Algebra.Order.Group.Multiset

/-! What the rules for expressions record and report. Whatever is found and reported on the way, a rule
has each child of its expression visited once and records the expression itself once. A child costs its
total at most: what it reports itself and what is reported about the use of it are different topics. -/

namespace StaticTyping

open List Nat

/-- An action that an expression may perform: it looks something up, reports, puts what is reported in
order, records a type or ends the narrowing of a name. -/
def Action.Mild {β : Type} : Action β → Prop
  | .record _ _ | .clearNarrowing _ | .diagnosticCount | .hoist _ _ => True
  | action => action.Silent

lemma Action.Mild.of_silent {β : Type} {action : Action β} (h : action.Silent) : action.Mild := by
  cases action with
  | record | clearNarrowing | diagnosticCount | hoist => trivial
  | _ => exact h

namespace Rule

variable {N : Type} [AddCommMonoid N] {acc : Account N} {id : ExprId} {hint : Option Ty} {span : Span}
  {fields : List FieldInit} {elements : List ExprId}

namespace Account

/-- How often the diagnostic is reported at most where an expression is checked: what belongs to its
value or to assigning to it, what stands in it, and the totals of its children. -/
noncomputable def outlay (acc : Account N) (id : ExprId) : ℕ :=
  acc.d.share .value (acc.env.exprSpan id) + acc.d.share .target (acc.env.exprSpan id) +
    acc.d.marksIn (acc.env.exprKind id).spans + ((acc.env.exprKind id).children.map acc.total).sum

/-- If the argument spreads a value, the diagnostic is none that elements of it may share. -/
def Spares (acc : Account N) (arg : Argument) : Prop :=
  acc.env.program.isLooseSpread arg →
    ∀ code : Code, code.isPerElement → acc.d.charge (some code) arg.span = 0

/-- A visit to an expression records it and what visits to its children record. -/
structure Descends (acc : Account N) : Prop where
  tree : ∀ id, acc.visits id →
    acc.tree id = acc.one id + ((acc.env.program.exprChildren id).map acc.tree).sum
  child : ∀ a b, acc.visits a → b ∈ acc.env.program.exprChildren a → acc.visits b
  cost : ∀ id, acc.visits id → acc.outlay id ≤ acc.cost id
  total : ∀ id, acc.visits id → acc.d.share .use (acc.env.exprSpan id) + acc.cost id ≤ acc.total id
  spares : ∀ id callee args, acc.env.exprKind id = .call callee args → ∀ arg ∈ args, acc.Spares arg

omit [AddCommMonoid N] in
lemma spares_of_nowhere (hd : acc.d.span = none) (arg : Argument) : acc.Spares arg :=
  fun _ _ _ => by simp [Diagnostic.charge, Diagnostic.marks, hd]

/-- Where the diagnostic stands nowhere, nothing costs anything. -/
lemma Descends.of_nowhere (hd : acc.d.span = none) (hcost : acc.cost = fun _ => 0)
    (htotal : acc.total = fun _ => 0)
    (htree : ∀ id, acc.visits id →
      acc.tree id = acc.one id + ((acc.env.program.exprChildren id).map acc.tree).sum)
    (hchild : ∀ a b, acc.visits a → b ∈ acc.env.program.exprChildren a → acc.visits b) :
    acc.Descends := by
  have hshare (aspect : Aspect) (span : Span) : acc.d.share aspect span = 0 := by
    simp [Diagnostic.share, Diagnostic.marks, hd]
  have hspans (spans : List Span) : acc.d.marksIn spans = 0 := by
    rw [Diagnostic.marksIn_eq_count, hd, count_eq_zero]
    simp
  refine ⟨htree, hchild, fun id _ => ?_, fun id _ => ?_, fun id callee args _ arg _ => spares_of_nowhere hd arg⟩
  · simp [outlay, hshare, hspans, htotal]
  · simp [hshare, hcost]

variable (h : acc.Descends)
include h

lemma Descends.kind {kind : ExprKind} (hid : acc.visits id) (hkind : acc.env.exprKind id = kind) :
    acc.tree id = acc.one id + (kind.children.map acc.tree).sum ∧ ∀ c ∈ kind.children, acc.visits c := by
  subst hkind
  exact ⟨h.tree id hid, fun c hc => h.child id c hid hc⟩

lemma Descends.cost_of_kind {kind : ExprKind} (hid : acc.visits id)
    (hkind : acc.env.exprKind id = kind) : acc.d.share .use (acc.env.exprSpan id) +
      (acc.d.marksIn kind.spans + (kind.children.map acc.total).sum) ≤ acc.total id := by
  subst hkind
  have hcost := h.cost id hid
  have htotal := h.total id hid
  unfold outlay at hcost
  omega

lemma Descends.cost_add_charge (hid : acc.visits id) (code : Code)
    (hcode : Aspect.ofTopic (some code) = .use) :
    acc.cost id + acc.d.charge (some code) (acc.env.exprSpan id) ≤ acc.total id := by
  have hcharge := acc.d.charge_le_share (some code) (acc.env.exprSpan id)
  have htotal := h.total id hid
  rw [hcode] at hcharge
  omega

end Account

open Account

lemma visit_does (hid : acc.visits id) (role : Role) :
    acc.Does [] (acc.tree id) (acc.cost id) (visit role id) := .visit role rfl hid

lemma record_does (id : ExprId) (ty : Ty) : acc.Does [] (acc.one id) 0 (record id ty) := .record id ty rfl

variable (h : acc.Descends)
include h

lemma visit_total (hid : acc.visits id) (role : Role) :
    acc.Does [] (acc.tree id) (acc.total id) (visit role id) :=
  (visit_does hid role).le (le_of_add_left_le (h.total id hid))

lemma visitOnly_does (hid : acc.visits id) :
    acc.Does [] (acc.tree id) (acc.total id) (visitOnly id) :=
  (visit_total h hid _).andPure

section Operators

variable {operand left right : ExprId}

lemma signedType_does (hoperand : acc.visits operand) (op : UnaryOp) (sign : String) :
    acc.Does [] (acc.tree operand) (acc.total operand + acc.d.share .value span)
      (signedType acc.env op sign operand hint span) := by
  unfold signedType
  split
  · rename_i digits hkind
    -- A literal under a sign is not visited but recorded here, and it has no children.
    have htree : acc.tree operand = acc.one operand := by
      simpa [ExprKind.children] using (h.kind hoperand hkind).1
    have hrange := acc.d.charge_le_share (some .integerOutOfRange) span
    rw [htree]
    refine ((literalType_does _ _ _ true).andThen fun ty => (record_does operand ty).andPure).le ?_
    exact (add_zero _).trans_le (hrange.trans (le_add_left _ _))
  · refine (visit_total h hoperand _).before fun ty => ?_
    split
    · exact .pure _
    · exact (report_share (.inl rfl) .value rfl).andPure

lemma unaryType_does (hoperand : acc.visits operand) (op : UnaryOp) :
    acc.Does [] (acc.tree operand) (acc.total operand + acc.d.share .value span)
      (unaryType acc.env op operand hint span) := by
  unfold unaryType
  cases op with
  | not => exact ((visitOnly_does h hoperand).andPure).le (le_add_right _ _)
  | minus | plus => exact signedType_does h hoperand _ _

omit h in
lemma arithmeticType_does {active : List String} (op : BinaryOp) (leftType rightType : Ty) :
    acc.Does active 0 (acc.d.share .value span) (arithmeticType op leftType rightType span) := by
  unfold arithmeticType
  split
  · exact .pure _
  · split
    · exact .pure _
    · split
      · split
        · exact .pure _
        · exact (report_share (.inl rfl) .value rfl).andPure
      · split
        · exact .pure _
        · exact (report_share (.inl rfl) .value rfl).andPure

lemma operandTypes_does (hleft : acc.visits left) (hright : acc.visits right) :
    acc.Does [] (acc.tree left + acc.tree right) (acc.total left + acc.total right)
      (operandTypes acc.env left right hint) :=
  (Gives.operands hint rfl hleft hright).le (Nat.add_le_add
    (le_of_add_left_le (h.total left hleft)) (le_of_add_left_le (h.total right hright)))

lemma checkLogicalOperand_does (hoperand : acc.visits operand) (op : BinaryOp) :
    acc.Does [] (acc.tree operand) (acc.total operand) (checkLogicalOperand acc.env op operand) :=
  ((visit_does hoperand _).before fun _ => reportIf_does
    (report_charge (.inl rfl) .logicalOperand rfl)).le (h.cost_add_charge hoperand .logicalOperand rfl)

lemma binaryType_does (hleft : acc.visits left) (hright : acc.visits right) (op : BinaryOp) :
    acc.Does [] (acc.tree left + acc.tree right) (acc.total left + acc.total right + acc.d.share .value span)
      (binaryType acc.env op left right hint span) := by
  cases op with
  | is =>
    have hreport {active : List String} {span : Span} {ty : Ty} {condition : Bool} :
        acc.Does active 0 (acc.d.charge (some .isOperand) span) (reportIf condition (.isOperand ty) span) :=
      reportIf_does (report_charge (.inl rfl) .isOperand rfl)
    have huseLeft := h.cost_add_charge hleft .isOperand rfl
    have huseRight := h.cost_add_charge hright .isOperand rfl
    refine ((visit_does hleft _).bind fun _ => (visit_does hright _).before fun _ =>
      hreport.andThen fun _ => hreport.andPure).le ?_
    omega
  | and | or =>
    exact ((checkLogicalOperand_does h hleft _).bind fun _ =>
      (checkLogicalOperand_does h hright _).andPure).le (le_add_right _ _)
  | equal | notEqual | greater | greaterEqual | less | lessEqual =>
    exact (operandTypes_does h hleft hright).before fun _ =>
      (reportIf_does (report_share (.inl rfl) .value rfl)).andPure
  | add | subtract | multiply | divide | modulo | bitOr =>
    exact (operandTypes_does h hleft hright).before fun _ => arithmeticType_does _ _ _

end Operators

section Access

variable {object position : ExprId}

omit h in
lemma lookupMember_does (object : Ty) (name : String) :
    acc.Does [] 0 0 (lookupMember acc.env object name) := by
  unfold lookupMember
  split
  · split
    · exact of_symbol fun _ _ => .pure _
    · exact .pure _
  · exact .pure _

lemma memberType_does (hobject : acc.visits object) (property : Ident) :
    acc.Does [] (acc.tree object) (acc.total object + acc.d.marks property.span)
      (memberType acc.env object property) := by
  refine (visit_total h hobject _).before fun objectType => (lookupMember_does _ _).after fun found => ?_
  cases found with
  | found | untracked => exact .pure _
  | missing owner =>
    exact ((report_charge (.inl rfl) .unknownMember rfl).andPure).le (acc.d.charge_le_marks _ property.span)

omit h in
lemma elementType_does (object : Ty) :
    acc.Does [] 0 (acc.d.charge (some .unknownMember) (acc.env.exprSpan position))
      (elementType acc.env object position) := by
  unfold elementType
  split
  · split
    · exact .pure _
    · exact (report_charge (.inl rfl) .unknownMember rfl).andPure
  · exact .pure _

lemma indexType_does (hobject : acc.visits object) (hposition : acc.visits position) :
    acc.Does [] (acc.tree object + acc.tree position) (acc.total object + acc.total position)
      (indexType acc.env object position) := by
  have hmismatch := h.cost_add_charge hposition .typeMismatch rfl
  refine (visit_total h hobject _).bind fun objectType => ?_
  split
  · exact ((visit_does hposition _).before fun _ =>
      (reportIf_does (report_charge (.inl rfl) .typeMismatch rfl)).andPure).le hmismatch
  · exact ((visit_does hposition _).before fun _ =>
      (reportIf_does (report_charge (.inl rfl) .typeMismatch rfl)).andPure).le hmismatch
  · refine (Does.before (.andPure (visit_does hposition _)) fun _ => elementType_does _).le ?_
    exact h.cost_add_charge hposition .unknownMember rfl

end Access

section Assignment

omit h

/-- What may be found wrong with assigning to something. -/
def OfTarget (finding : Finding) : Prop := finding.code.isPlain ∧ Aspect.ofTopic finding.topic = .target

lemma reportAny_does {finding : Option Finding} (h : ∀ f ∈ finding, OfTarget f) :
    acc.Does [] 0 (acc.d.share .target span) (reportAny finding span) := by
  cases finding with
  | none => exact .pure _
  | some finding => exact report_share (.inl (h finding rfl).1) .target (h finding rfl).2

lemma mutationFinding_ofTarget (symbol : Symbol) : ∀ f ∈ symbol.mutationFinding?, OfTarget f := by
  intro f hf
  unfold Symbol.mutationFinding? at hf
  split at hf
  · obtain rfl := Option.mem_some.mp hf
    exact ⟨rfl, rfl⟩
  · split at hf
    · obtain rfl := Option.mem_some.mp hf
      exact ⟨rfl, rfl⟩
    · simp at hf

lemma assignmentFinding_ofTarget (symbol : Symbol) (name : String) :
    ∀ f ∈ symbol.assignmentFinding? name, OfTarget f := by
  intro f hf
  unfold Symbol.assignmentFinding? at hf
  split at hf
  · obtain rfl := Option.mem_some.mp hf
    exact ⟨rfl, rfl⟩
  · obtain rfl := Option.mem_some.mp hf
    exact ⟨rfl, rfl⟩
  · exact mutationFinding_ofTarget symbol f hf

lemma nameTarget_does (name : String) :
    acc.Does [] 0 (acc.d.share .value span + acc.d.share .target span) (nameTarget name span) := by
  refine (lookupValue_does name).after fun found => ?_
  cases found with
  | none => exact ((report_share (.inl rfl) .value rfl).andPure).le (le_add_right _ _)
  | some id =>
    refine of_symbol fun declared _ => ?_
    exact ((reportAny_does (assignmentFinding_ofTarget declared name)).andPure).le (le_add_left _ _)

lemma checkRoot_does (target : ExprId) :
    acc.Does [] 0 (acc.d.share .target span) (checkRoot acc.env target span) := by
  unfold checkRoot
  split
  · exact .pure _
  · refine (lookupValue_does _).after fun found => ?_
    cases found with
    | none => exact .pure _
    | some id => exact of_symbol fun declared _ => reportAny_does (mutationFinding_ofTarget declared)

lemma endNarrowing_does (hnarrows : acc.narrows) (target : ExprId) :
    acc.Does [] 0 0 (endNarrowing acc.env target) := by
  unfold endNarrowing
  split
  · exact .clearNarrowing _ rfl hnarrows
  · exact .pure _

lemma assignedType_does {active : List String} (op : Option BinaryOp) (target value : Ty) :
    acc.Does active 0 (acc.d.share .value span) (assignedType op target value span) := by
  cases op with
  | none => exact .pure _
  | some op => exact arithmeticType_does op target value

include h

lemma assignmentType_does (hnarrows : acc.narrows) {target value : ExprId}
    (htarget : acc.visits target) (hvalue : acc.visits value) (op : Option BinaryOp) :
    acc.Does [] (acc.tree target + acc.tree value)
      (acc.total target + acc.total value + acc.d.share .value span)
      (assignmentType acc.env op target value span) := by
  have huse := h.cost_add_charge hvalue .typeMismatch rfl
  refine ((visit_total h htarget _).bind fun declared => (visit_does hvalue _).before fun valueType =>
    (assignedType_does op declared valueType).andThen fun _ =>
      (reportIf_does (report_charge (.inl rfl) .typeMismatch rfl)).andThen fun _ =>
        (endNarrowing_does hnarrows target).andPure).le ?_
  omega

end Assignment

section Aggregate

lemma checkFields_does (hfields : ∀ field ∈ fields, acc.visits field.value) (recordName : String)
    (declared : List Member) (seen : List String) :
    acc.Does [] (fields.map fun field => acc.tree field.value).sum
      (fields.map fun field => acc.d.marks field.name.span + acc.total field.value).sum
      (checkFields acc.env recordName declared seen fields) := by
  induction fields generalizing seen with
  | nil => exact .pure _
  | cons field rest ih =>
    obtain ⟨hfield, hrest⟩ := forall_mem_cons.mp hfields
    have hunknown := acc.d.charge_le_marks (some .unknownMember) field.name.span
    have hrepeated := acc.d.charge_le_marks (some .duplicateField) field.name.span
    have huse := h.cost_add_charge hfield .typeMismatch rfl
    rw [map_cons, sum_cons, map_cons, sum_cons]
    unfold checkFields
    split
    · refine ((report_charge (.inl rfl) .unknownMember rfl).andThen
        fun _ => (visitOnly_does h hfield).bind fun _ => ih hrest seen).le ?_
      omega
    · split
      · refine ((report_charge (.inl rfl) .duplicateField rfl).andThen
          fun _ => (visitOnly_does h hfield).bind fun _ => ih hrest seen).le ?_
        omega
      · refine ((visit_does hfield _).bind fun _ =>
          (reportIf_does (report_charge (.inl rfl) .typeMismatch rfl)).andThen fun _ => ih hrest _).le ?_
        omega

omit h in
lemma reportMissingFields_does (name : Ident) {declared : List Member}
    (hnames : acc.tidy → (declared.map (·.name)).Nodup) (seen : List String) :
    acc.Does [] 0 (acc.d.charge (some .missingField) name.span)
      (reportMissingFields name declared seen) := by
  have hsum := acc.d.sum_price_names_le (.missingField · name.name) .missingField (fun _ => rfl)
    Finding.missingField_inj (hnames ∘ acc.tidy_of_placed) name.span
  rw [map_map] at hsum
  exact .le (.forM_silent fun m _ => reportIf_does (report_price (.inl rfl))) hsum

lemma recordType_does (hfields : ∀ field ∈ fields, acc.visits field.value) (name : Ident) :
    acc.Does [] (fields.map fun field => acc.tree field.value).sum (acc.d.marks name.span +
      (fields.map fun field => acc.d.marks field.name.span + acc.total field.value).sum)
      (recordType acc.env name fields) := by
  have hvisit : acc.Does [] (fields.map fun field => acc.tree field.value).sum
      (fields.map fun field => acc.d.marks field.name.span + acc.total field.value).sum
      (do visitFields fields; return Ty.error) :=
    (Does.forM fun field hfield =>
      (visitOnly_does h (hfields field hfield)).le (le_add_left _ _)).andPure
  have hreport {finding : Finding} (hplain : finding.code.isPlain) :
      acc.Does [] 0 (acc.d.marks name.span) (report finding name.span) :=
    (report_price (.inl hplain)).le (Diagnostic.price_le_marks _ _)
  refine (lookupType_does name.name).after fun found => ?_
  cases found with
  | none => exact (hreport rfl).andThen fun _ => hvisit
  | some id =>
    refine of_symbol fun declared htidy => ?_
    split
    · exact (hreport rfl).andThen fun _ => hvisit
    · have hnames (ht : acc.tidy) : ((declared.members.filter (·.method.isNone)).map (·.name)).Nodup :=
        (htidy ht).members.sublist (filter_sublist.map _)
      have hmissing := acc.d.charge_le_marks (some .missingField) name.span
      refine ((checkFields_does h hfields name.name _ []).before
        fun seen => (reportMissingFields_does name hnames seen).andPure).le ?_
      omega

lemma mapType_does {entries : List MapEntry}
    (hentries : ∀ entry ∈ entries, acc.visits entry.key ∧ acc.visits entry.value) :
    acc.Does [] (entries.map fun entry => acc.tree entry.key + acc.tree entry.value).sum
      (entries.map fun entry => acc.total entry.key + acc.total entry.value).sum
      (mapType entries hint) := by
  have htypes (keyHint valueHint : Option Ty) :
      acc.Does [] (entries.map fun entry => acc.tree entry.key + acc.tree entry.value).sum
        (entries.map fun entry => acc.total entry.key + acc.total entry.value).sum
        (entryTypes keyHint valueHint entries) :=
    .mapM fun entry hentry => (visit_total h (hentries entry hentry).1 _).bind fun _ =>
      (visit_total h (hentries entry hentry).2 _).andPure
  refine ((htypes _ _).before (l := 0) fun types => ?_).le (add_zero _).le
  split <;> exact .pure _

lemma tupleType_does (helements : ∀ element ∈ elements, acc.visits element) :
    acc.Does [] (elements.map acc.tree).sum (elements.map acc.total).sum (tupleType elements hint) := by
  have htypes (hints : List Ty) : acc.Does [] (elements.map acc.tree).sum (elements.map acc.total).sum
      (elementTypes hints elements) := by
    induction elements generalizing hints with
    | nil => exact .pure _
    | cons element rest ih =>
      obtain ⟨helement, hrest⟩ := forall_mem_cons.mp helements
      exact (visit_total h helement _).bind fun _ => (ih hrest hints.tail).andPure
  exact (htypes _).andPure

lemma castType_does {value : ExprId} (hvalue : acc.visits value) (target : TypeExpr) :
    acc.Does [] (acc.tree value)
      (acc.total value + (acc.d.marksIn target.spans + acc.d.share .value span))
      (castType value target span) :=
  (visit_total h hvalue _).before fun _ => (resolveType_does target).andThen fun _ =>
    (reportIf_does (report_share (.inl rfl) .value rfl)).andPure

end Aggregate

end Rule

end StaticTyping
