import StaticTyping.Diagnostic.Finding
import StaticTyping.Proofs.Distinct.Spans
import StaticTyping.Proofs.Text.Quoted
import Mathlib.Algebra.GroupWithZero.Nat
import Mathlib.Algebra.Order.BigOperators.Group.List
import Mathlib.Algebra.Order.Group.Nat
import Mathlib.Data.List.Nodup

/-! What one report adds to the number of times that a diagnostic is reported. A report counts only at
the place of the diagnostic, and there only if it is about the same topic. At the span of an
expression some topics belong to the expression itself and others to what surrounds it. -/

namespace StaticTyping

open Text List Nat

section Messages

lemma Finding.missingArgument_inj {a b callee : String}
    (h : (missingArgument a callee).message = (missingArgument b callee).message) : a = b := by
  have hmessage (param : String) : (missingArgument param callee).message =
      "missing argument for parameter " ++ quoted param ++ " of " ++ quoted callee := rfl
  rw [hmessage, hmessage, String.append_left_inj, String.append_left_inj,
    String.append_right_inj] at h
  exact quoted_injective h

lemma Finding.missingField_inj {a b record : String}
    (h : (missingField a record).message = (missingField b record).message) : a = b := by
  have hmessage (field : String) : (missingField field record).message =
      "missing field " ++ quoted field ++ " in literal of struct " ++ quoted record := rfl
  rw [hmessage, hmessage, String.append_left_inj, String.append_left_inj,
    String.append_right_inj] at h
  exact quoted_injective h

lemma Finding.argumentRepeated_inj {a b : String}
    (h : (argumentRepeated a).message = (argumentRepeated b).message) : a = b := by
  have hmessage (name : String) : (argumentRepeated name).message =
      "argument " ++ quoted name ++ " is supplied more than once" := rfl
  rw [hmessage, hmessage, String.append_left_inj, String.append_right_inj] at h
  exact quoted_injective h

lemma Finding.tooMany_ne (callee : String) (limit expected found : Nat) :
    (tooManyPositional callee limit).message ≠ (tooManyArguments expected found).message := by
  intro h
  have hpositional : (tooManyPositional callee limit).message = "too many positional arguments: " ++
      (quoted callee ++ " takes " ++ plural limit "positional argument") := by
    rw [← String.append_assoc, ← String.append_assoc]
    rfl
  have hcount : (tooManyArguments expected found).message =
      "too many arguments: expected " ++ (toString expected ++ ", found " ++ toString found) := by
    rw [← String.append_assoc, ← String.append_assoc]
    rfl
  rw [hpositional, hcount] at h
  have hninth := congrArg (fun text : String => text.toList[9]?) h
  simp at hninth

end Messages

/-- What a report is about: its code, except that a call with the wrong number of arguments is told
apart from an argument that finds no parameter. -/
def Finding.topic : Finding → Option Code
  | .tooManyArguments _ _ => none
  | finding => some finding.code

/-- What is reported again for each element of a tuple that is spread, always at the span of the
argument. -/
def Code.isPerElement : Code → Bool
  | .typeMismatch | .mutableArgument | .tooManyPositional => true
  | _ => false

/-- Whether a diagnostic at the span of an expression is about its value, about assigning to it, or
about the use that is made of it. -/
inductive Aspect where
  | value | target | use
  deriving DecidableEq

def Aspect.ofTopic : Option Code → Aspect
  | none => .value
  | some code =>
    match code with
    | .unknownIdentifier | .integerOutOfRange | .unaryOperand | .equalityOperand | .orderingOperand
    | .arithmeticOperand | .missingArgument | .invalidCast => .value
    | .constAssignment | .parameterAssignment | .invalidAssignmentTarget => .target
    | _ => .use

namespace Diagnostic

variable (d : Diagnostic)

open Classical in
noncomputable def topic : Option Code :=
  if d.code = .tooManyPositional ∧
    ∃ expected found, d.message = (Finding.tooManyArguments expected found).message then none
  else some d.code

lemma topic_toDiagnostic (finding : Finding) (span : Span) :
    (finding.toDiagnostic span).topic = finding.topic := by
  cases finding with
  | tooManyArguments expected found => exact if_pos ⟨rfl, expected, found, rfl⟩
  | tooManyPositional callee limit =>
    refine if_neg ?_
    rintro ⟨-, expected, found, h⟩
    exact Finding.tooMany_ne callee limit expected found h
  | _ => exact if_neg (by simp [Finding.toDiagnostic, Finding.code])

variable {d} in
lemma code_of_topic {code : Code} (h : d.topic = some code) : d.code = code := by
  unfold topic at h
  split at h
  · cases h
  · exact Option.some.inj h

def marks (span : Span) : ℕ := if d.span = some span then 1 else 0

def marksIn (spans : List Span) : ℕ := (spans.map d.marks).sum

@[simp] lemma marksIn_nil : d.marksIn [] = 0 := rfl

@[simp] lemma marksIn_cons (span : Span) (spans : List Span) :
    d.marksIn (span :: spans) = d.marks span + d.marksIn spans := by simp [marksIn]

@[simp] lemma marksIn_append (first second : List Span) :
    d.marksIn (first ++ second) = d.marksIn first + d.marksIn second := by simp [marksIn]

lemma marksIn_map {α : Type} (f : α → Span) (xs : List α) :
    d.marksIn (xs.map f) = (xs.map fun x => d.marks (f x)).sum := by
  simp [marksIn, Function.comp_def]

lemma marksIn_flatMap {α : Type} (f : α → List Span) (xs : List α) :
    d.marksIn (xs.flatMap f) = (xs.map fun x => d.marksIn (f x)).sum := by
  induction xs with
  | nil => rfl
  | cons x xs ih => simp [ih]

lemma marksIn_le_of_sublist {first second : List Span} (h : first.Sublist second) :
    d.marksIn first ≤ d.marksIn second :=
  (h.map d.marks).sum_le_sum fun _ _ => zero_le _

lemma marksIn_eq_count (spans : List Span) : d.marksIn spans = (spans.map some).count d.span := by
  induction spans with
  | nil => rfl
  | cons span rest ih =>
    rw [marksIn_cons, ih, map_cons, count_cons, marks, add_comm]
    simp only [beq_iff_eq, eq_comm (a := d.span)]

def price (finding : Finding) (span : Span) : ℕ := if finding.toDiagnostic span = d then 1 else 0

noncomputable def charge (topic : Option Code) (span : Span) : ℕ :=
  if d.topic = topic then d.marks span else 0

noncomputable def share (aspect : Aspect) (span : Span) : ℕ :=
  if Aspect.ofTopic d.topic = aspect then d.marks span else 0

variable {d}

lemma price_le_charge (finding : Finding) (span : Span) :
    d.price finding span ≤ d.charge finding.topic span := by
  unfold price
  split
  · rename_i heq
    subst heq
    have hmarks : (finding.toDiagnostic span).marks span = 1 := if_pos rfl
    rw [charge, if_pos (topic_toDiagnostic finding span), hmarks]
  · exact zero_le _

lemma sum_charge (topics : List (Option Code)) (h : topics.Nodup) (span : Span) :
    (topics.map (d.charge · span)).sum = if d.topic ∈ topics then d.marks span else 0 := by
  induction topics with
  | nil => rfl
  | cons topic rest ih =>
    obtain ⟨hnew, hrest⟩ := nodup_cons.mp h
    rw [map_cons, sum_cons, ih hrest, charge]
    by_cases htopic : d.topic = topic
    · simp [htopic, hnew]
    · simp [htopic]

lemma sum_charge_le_marks (topics : List (Option Code)) (h : topics.Nodup) (span : Span) :
    (topics.map (d.charge · span)).sum ≤ d.marks span := by
  rw [sum_charge topics h]
  split
  · exact le_rfl
  · exact zero_le _

lemma sum_charge_le_share (topics : List (Option Code)) (h : topics.Nodup) {aspect : Aspect}
    (haspect : ∀ topic ∈ topics, Aspect.ofTopic topic = aspect) (span : Span) :
    (topics.map (d.charge · span)).sum ≤ d.share aspect span := by
  rw [sum_charge topics h]
  split
  · rename_i hmem
    rw [share, if_pos (haspect _ hmem)]
  · exact zero_le _

lemma charge_le_marks (topic : Option Code) (span : Span) : d.charge topic span ≤ d.marks span := by
  simpa using sum_charge_le_marks (d := d) [topic] (nodup_singleton _) span

lemma charge_le_share (topic : Option Code) (span : Span) :
    d.charge topic span ≤ d.share (.ofTopic topic) span := by
  simpa using sum_charge_le_share (d := d) [topic] (nodup_singleton _) (by simp) span

lemma price_le_marks (finding : Finding) (span : Span) : d.price finding span ≤ d.marks span :=
  (price_le_charge finding span).trans (charge_le_marks _ span)

lemma share_add (d : Diagnostic) (span : Span) :
    d.share .value span + d.share .target span + d.share .use span = d.marks span := by
  unfold share
  cases Aspect.ofTopic d.topic <;> simp

lemma sum_price_le_charge {findings : List Finding} {topic : Option Code}
    (htopic : ∀ finding ∈ findings, finding.topic = topic)
    (hnodup : (findings.map (·.message)).Nodup) (span : Span) :
    (findings.map (d.price · span)).sum ≤ d.charge topic span := by
  induction findings with
  | nil => exact zero_le _
  | cons finding rest ih =>
    obtain ⟨hnew, hrest⟩ := nodup_cons.mp hnodup
    rw [map_cons, sum_cons]
    by_cases hfinding : finding.toDiagnostic span = d
    · -- The others have other messages.
      have hothers : (rest.map (d.price · span)).sum = 0 := by
        rw [sum_eq_zero_iff]
        intro n hn
        obtain ⟨other, hother, rfl⟩ := mem_map.mp hn
        refine if_neg fun heq => hnew (mem_map.mpr ⟨other, hother, ?_⟩)
        rw [← hfinding] at heq
        exact congrArg Diagnostic.message heq
      rw [hothers, add_zero, ← htopic finding (.head _)]
      exact price_le_charge finding span
    · rw [price, if_neg hfinding, zero_add]
      exact ih (fun other hother => htopic other (.tail _ hother)) hrest

lemma price_eq_zero (h : d.span = none) (finding : Finding) (span : Span) :
    d.price finding span = 0 :=
  if_neg fun heq => by simp [← heq, Finding.toDiagnostic] at h

lemma sum_price_names_le (finding : String → Finding) (code : Code)
    (htopic : ∀ name, (finding name).topic = some code)
    (hmessage : ∀ {a b}, (finding a).message = (finding b).message → a = b) {names : List String}
    (h : d.span ≠ none → names.Nodup) (span : Span) :
    (names.map fun name => d.price (finding name) span).sum ≤ d.charge (some code) span := by
  by_cases hd : d.span = none
  · simp [price_eq_zero hd]
  have hnodup : ((names.map finding).map (·.message)).Nodup := by
    rw [map_map]
    exact (h hd).map fun _ _ => hmessage
  have hsum := sum_price_le_charge (d := d) (forall_mem_map.mpr fun name _ => htopic name) hnodup
    span
  rwa [map_map] at hsum

end Diagnostic

end StaticTyping
