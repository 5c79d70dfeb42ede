import StaticTyping.Proofs.Contract
import StaticTyping.Proofs.Distinct.Charge
import StaticTyping.Rule.Expr
import StaticTyping.Rule.Stmt

/-! Rules that only look things up and report. They visit no expression and no statement, and they
have aliases expanded under the aliases that are being expanded already.

What such a rule and the rules for expressions do is said once for all that is counted: what they
record, which is counted exactly, and how often they report a diagnostic, which has an upper bound. -/

namespace StaticTyping

open Finding List Nat
open Diagnostic hiding span

/-- The codes but for those that tell how the arguments of a call go with its parameters. -/
def Code.isPlain : Code → Bool
  | tooManyPositional | duplicateArgument | unknownNamedArgument | missingArgument => false
  | _ => true

/-- How often the target of a symbol may still lead to the diagnostic. -/
def Symbol.latent (d : Diagnostic) (symbol : Symbol) : ℕ :=
  match symbol.ty, symbol.aliasTarget with
  | none, some target => d.marksIn target.spans
  | _, _ => 0

/-- The names of parameters are different, and so are those of members. -/
structure Symbol.Tidy (symbol : Symbol) : Prop where
  params : (symbol.params.map (·.name)).Nodup
  members : (symbol.members.map (·.name)).Nodup

/-- The names are different, and none of them was seen before. -/
structure Unseen (seen names : List String) : Prop where
  nodup : names.Nodup
  new : ∀ name ∈ names, name ∉ seen

lemma Unseen.nil (seen : List String) : Unseen seen [] := ⟨nodup_nil, by simp⟩

lemma Unseen.cons {name : String} {seen names : List String} (h : name ∉ seen)
    (hrest : Unseen (name :: seen) names) : Unseen seen (name :: names) := by
  have hother : ∀ other ∈ names, other ≠ name ∧ other ∉ seen := by
    simpa using hrest.new
  refine ⟨nodup_cons.mpr ⟨fun hmem => (hother name hmem).1 rfl, hrest.nodup⟩, ?_⟩
  exact forall_mem_cons.mpr ⟨h, fun other hmem => (hother other hmem).2⟩

namespace Action

variable {β : Type}

/-- An action that changes nothing but diagnostics, and that does not depend on them. -/
def Silent : Action β → Prop
  | .symbolCount | .readSymbol _ | .lookupValue _ | .lookupType _ | .lookupValueType _
  | .declaredSymbol _ | .currentFunction | .report _ => True
  | _ => False

/-- All that a silent action may change is what is reported. -/
lemma Silent.step_snd {action : Action β} (h : action.Silent) (s : State) :
    (action.step s).2 = { s with diagnostics := (action.step s).2.diagnostics } := by
  cases action with
  | lookupValueType name =>
    simp only [Action.step]
    split <;> rfl
  | symbolCount | readSymbol | lookupValue | lookupType | declaredSymbol | currentFunction
  | report => rfl
  | _ => exact h.elim

def Plain : Action β → Prop
  | .report d => d.code.isPlain
  | _ => True

def price (d : Diagnostic) : Action β → ℕ
  | .report reported => if reported = d then 1 else 0
  | .allocate symbol => symbol.latent d
  | _ => 0

/-- What is known of the answer where symbols are tidy. -/
def Assures : Action β → β → Prop
  | .readSymbol _, symbol => symbol.Tidy
  | _, _ => True

end Action

def Request.Silent (calls : Prop) (active : List String) {β : Type} : Request β → Prop
  | .act action => action.Silent ∧ (action.Plain ∨ calls)
  | .expand around _ _ _ => around = active
  | .expr _ _ | .stmt _ => False

lemma Diagnostic.default_unplaced : (default : Diagnostic).span ≠ none → False := fun h => h rfl

namespace Rule

variable {α β : Type} {calls : Prop} {active : List String}

/-- A rule that only looks things up, reports, and has aliases expanded inside those in `active`. Under
codes that are not plain it reports only if it is about `calls`. -/
def Silent (calls : Prop) (active : List String) (x : Rule α) : Prop :=
  x.Uses (Request.Silent calls active)

namespace Silent

variable {x : Rule α}

protected lemma pure (a : α) : Silent calls active (pure a) := trivial

protected lemma bind {f : α → Rule β} (hx : Silent calls active x) (hf : ∀ a, Silent calls active (f a)) :
    Silent calls active (x >>= f) := Steps.Uses.bind hx hf

end Silent

lemma perform_silent (action : Action α) (h : action.Silent)
    (hplain : action.Plain ∨ calls) : Silent calls active (perform action) :=
  ⟨⟨h, hplain⟩, fun _ => trivial⟩

lemma symbol_silent (id : SymbolId) : Silent calls active (symbol id) :=
  perform_silent (.readSymbol id) trivial (.inl trivial)

lemma lookupValue_silent (name : String) : Silent calls active (lookupValue name) :=
  perform_silent (.lookupValue name) trivial (.inl trivial)

lemma report_silent (finding : Finding) (span : Span) (h : finding.code.isPlain ∨ calls) :
    Silent calls active (report finding span) :=
  perform_silent (.report _) trivial h

lemma reportIf_silent (condition : Bool) (finding : Finding) (span : Span)
    (h : finding.code.isPlain ∨ calls) : Silent calls active (reportIf condition finding span) := by
  cases condition with
  | true => exact report_silent finding span h
  | false => exact .pure ()

/-- What a rule may do, and how it is counted. -/
structure Account (N : Type) where
  env : Env
  /-- The expressions that may be visited. -/
  visits : ExprId → Prop
  /-- What an expression that is recorded counts. -/
  one : ExprId → N
  /-- What a visit to an expression counts. -/
  tree : ExprId → N
  /-- It may be reported how the arguments of a call go with its parameters. -/
  calls : Prop := True
  /-- The narrowing of a name may end. -/
  narrows : Prop := True
  /-- The diagnostic whose reports are counted. By default it stands nowhere. -/
  d : Diagnostic := default
  /-- How often a visit to an expression reports it at most. -/
  cost : ExprId → ℕ := fun _ => 0
  /-- How often it is reported by a visit or about the use of the expression. -/
  total : ExprId → ℕ := fun _ => 0
  /-- Symbols are tidy. -/
  tidy : Prop := False
  tidy_of_placed : d.span ≠ none → tidy := by exact Diagnostic.default_unplaced

variable {N : Type} [AddCommMonoid N] {acc : Account N} {K L : N} {k l : ℕ} {x : Rule α}

/-- What silent rules and the rules for expressions are built from. Diagnostics are counted and put in
order in one place only, between the operands of an operator. All else is looking up, reporting,
recording, ending the narrowing of a name, and visits. The rule records just `K`, whatever it meets
with. It reports the diagnostic `k` times at most, and its answer is as `Q` says, if symbols are
tidy. -/
inductive Account.Gives (acc : Account N) (active : List String) :
    {α : Type} → N → ℕ → Rule α → (α → Prop) → Prop where
  | answer {α : Type} {a : α} {k : ℕ} {Q : α → Prop} : (acc.tidy → Q a) → Gives acc active 0 k (pure a) Q
  | act {β : Type} (action : Action β) : action.Silent → action.Plain ∨ acc.calls →
      Gives acc active 0 (action.price acc.d) (perform action) action.Assures
  | expand (id : SymbolId) (span : Span) (cyclic : Cyclic) : Gives acc active 0
      (if active = [] then 0 else acc.d.charge (some .aliasCycle) span)
      (.lift (.expand active id span cyclic)) fun _ => True
  | visit (role : Role) {id : ExprId} : active = [] → acc.visits id →
      Gives acc active (acc.tree id) (acc.cost id) (visit role id) fun _ => True
  | record (id : ExprId) (ty : Ty) : active = [] →
      Gives acc active (acc.one id) 0 (record id ty) fun _ => True
  | clearNarrowing (name : String) : active = [] → acc.narrows →
      Gives acc active 0 0 (perform (.clearNarrowing name)) fun _ => True
  | operands {left right : ExprId} (hint : Option Ty) : active = [] → acc.visits left →
      acc.visits right → Gives acc active (acc.tree left + acc.tree right)
        (acc.cost left + acc.cost right) (operandTypes acc.env left right hint) fun _ => True
  | bind {α β : Type} {K L : N} {k l : ℕ} {x : Rule α} {f : α → Rule β} {P : α → Prop}
      {Q : β → Prop} : Gives acc active K k x P → (∀ a, (acc.tidy → P a) → Gives acc active L l (f a) Q) →
      Gives acc active (K + L) (k + l) (x >>= f) Q
  | mono {α : Type} {K : N} {k l : ℕ} {x : Rule α} {P Q : α → Prop} :
      Gives acc active K k x P → k ≤ l → (∀ a, P a → Q a) → Gives acc active K l x Q

abbrev Account.Does (acc : Account N) (active : List String) (K : N) (k : ℕ) (x : Rule α) : Prop :=
  acc.Gives active K k x fun _ => True

variable {f : α → Rule β} {xs : List β} {amount : β → N} {fee : β → ℕ}

namespace Account.Gives

variable {P : α → Prop} {Q : β → Prop} {a : α}

protected lemma pure (a : α) : acc.Gives active 0 k (pure a) fun _ => True := .answer fun _ => trivial

lemma le (hx : acc.Gives active K k x P) (h : k ≤ l) : acc.Gives active K l x P :=
  hx.mono h fun _ h => h

lemma does (hx : acc.Gives active K k x P) : acc.Does active K k x := hx.mono le_rfl fun _ _ => trivial

lemma after (hx : acc.Gives active 0 0 x P)
    (hf : ∀ a, (acc.tidy → P a) → acc.Gives active K k (f a) Q) :
    acc.Gives active K k (x >>= f) Q := by
  simpa using hx.bind hf

lemma andPure {g : α → β} (hx : acc.Gives active K k x P) (hg : ∀ a, P a → Q (g a)) :
    acc.Gives active K k (x >>= fun a => pure (g a)) Q := by
  simpa using hx.bind (l := 0) fun a ha => .answer fun htidy => hg a (ha htidy)

lemma foldlM {f : α → β → Rule α}
    (h : ∀ a, (acc.tidy → P a) → ∀ b ∈ xs, acc.Gives active (amount b) (fee b) (f a b) P)
    (ha : acc.tidy → P a) :
    acc.Gives active (xs.map amount).sum (xs.map fee).sum (xs.foldlM f a) P := by
  induction xs generalizing a with
  | nil => exact .answer ha
  | cons b xs ih =>
    exact (h a ha b (.head _)).bind fun a' ha' => ih (fun a ha b hb => h a ha b (.tail _ hb)) ha'

end Account.Gives

namespace Account.Does

variable {Q : β → Prop}

lemma le (hx : acc.Does active K k x) (h : k ≤ l) : acc.Does active K l x := Gives.le hx h

protected lemma bind (hx : acc.Does active K k x) (hf : ∀ a, acc.Gives active L l (f a) Q) :
    acc.Gives active (K + L) (k + l) (x >>= f) Q :=
  Gives.bind hx fun a _ => hf a

lemma after (hx : acc.Does active 0 0 x) (hf : ∀ a, acc.Gives active K k (f a) Q) :
    acc.Gives active K k (x >>= f) Q :=
  Gives.after hx fun a _ => hf a

/-- First something is reported. -/
lemma andThen (hx : acc.Does active 0 k x) (hf : ∀ a, acc.Gives active K l (f a) Q) :
    acc.Gives active K (k + l) (x >>= f) Q := by
  simpa using hx.bind hf

/-- In the end something is reported. -/
lemma before (hx : acc.Does active K k x) (hf : ∀ a, acc.Gives active 0 l (f a) Q) :
    acc.Gives active K (k + l) (x >>= f) Q := by
  simpa using hx.bind hf

lemma giving {g : α → β} (hx : acc.Does active K k x) (hg : ∀ a, acc.tidy → Q (g a)) :
    acc.Gives active K k (x >>= fun a => pure (g a)) Q := by
  simpa using hx.bind (l := 0) fun a => .answer (hg a)

lemma andPure {g : α → β} (hx : acc.Does active K k x) :
    acc.Does active K k (x >>= fun a => pure (g a)) :=
  hx.giving fun _ _ => trivial

lemma forM {f : β → Rule Unit} (h : ∀ b ∈ xs, acc.Does active (amount b) (fee b) (f b)) :
    acc.Does active (xs.map amount).sum (xs.map fee).sum (xs.forM f) := by
  induction xs with
  | nil => exact .pure ()
  | cons b xs ih =>
    obtain ⟨hb, hxs⟩ := forall_mem_cons.mp h
    exact hb.bind fun _ => ih hxs

lemma mapM {f : β → Rule α} (h : ∀ b ∈ xs, acc.Does active (amount b) (fee b) (f b)) :
    acc.Does active (xs.map amount).sum (xs.map fee).sum (xs.mapM f) := by
  induction xs with
  | nil => exact .pure []
  | cons b xs ih =>
    obtain ⟨hb, hxs⟩ := forall_mem_cons.mp h
    rw [mapM_cons, map_cons, sum_cons, map_cons, sum_cons]
    exact hb.bind fun _ => (ih hxs).andPure

lemma forM_silent {f : β → Rule Unit} (h : ∀ b ∈ xs, acc.Does active 0 (fee b) (f b)) :
    acc.Does active 0 (xs.map fee).sum (xs.forM f) := by
  have hsum : (xs.map fun _ => (0 : N)).sum = 0 := by simp
  rw [← hsum]
  exact forM h

lemma mapM_silent {f : β → Rule α} (h : ∀ b ∈ xs, acc.Does active 0 (fee b) (f b)) :
    acc.Does active 0 (xs.map fee).sum (xs.mapM f) := by
  have hsum : (xs.map fun _ => (0 : N)).sum = 0 := by simp
  rw [← hsum]
  exact mapM h

lemma foldlM {f : α → β → Rule α} (h : ∀ a, ∀ b ∈ xs, acc.Does active (amount b) (fee b) (f a b))
    (a : α) : acc.Does active (xs.map amount).sum (xs.map fee).sum (xs.foldlM f a) :=
  Gives.foldlM (fun a _ => h a) fun _ => trivial

end Account.Does

/-- To count what is recorded, where nothing is visited. -/
abbrev Account.silent (calls : Prop) : Account ℕ where
  env := ⟨{}, {}⟩
  visits _ := False
  one _ := 1
  tree _ := 1
  calls
  narrows := False

/-- A rule that records nothing and makes no visits is silent. -/
lemma Account.Gives.silent {P : α → Prop} (hx : (Account.silent calls).Gives active 0 k x P) :
    Silent calls active x := by
  generalize hK : (0 : ℕ) = K at hx
  induction hx with
  | answer => exact .pure _
  | act action h hplain => exact perform_silent action h hplain
  | expand => exact ⟨rfl, fun _ => trivial⟩
  | visit _ _ h | operands _ _ h | clearNarrowing _ _ h => exact h.elim
  | record => simp at hK
  | bind _ _ hx hf =>
    exact (hx (by omega)).bind fun a => hf a (fun h => h.elim) (by omega)
  | mono _ _ _ hx => exact hx hK

section Reports

variable {finding : Finding} {span : Span} {condition : Bool}

lemma perform_does (action : Action α) (h : action.Silent) (hplain : action.Plain ∨ acc.calls) :
    acc.Does active 0 (action.price acc.d) (perform action) :=
  (Account.Gives.act action h hplain).does

lemma of_symbol {id : SymbolId} {f : Symbol → Rule β} {Q : β → Prop}
    (hf : ∀ declared, (acc.tidy → declared.Tidy) → acc.Gives active K k (f declared) Q) :
    acc.Gives active K k (symbol id >>= f) Q := by
  have hread : acc.Gives active 0 0 (symbol id) Symbol.Tidy :=
    .act (.readSymbol id) trivial (.inl trivial)
  exact hread.after hf

lemma lookupValue_does (name : String) : acc.Does active 0 0 (lookupValue name) :=
  perform_does (.lookupValue name) trivial (.inl trivial)

lemma lookupType_does (name : String) : acc.Does active 0 0 (lookupType name) :=
  perform_does (.lookupType name) trivial (.inl trivial)

lemma lookupValueType_does (name : String) : acc.Does active 0 0 (perform (.lookupValueType name)) :=
  perform_does (.lookupValueType name) trivial (.inl trivial)

lemma reportIf_does (h : acc.Does active 0 k (report finding span)) :
    acc.Does active 0 k (reportIf condition finding span) := by
  cases condition with
  | true => exact h
  | false => exact .pure ()

variable (hplain : finding.code.isPlain ∨ acc.calls)
include hplain

lemma report_price : acc.Does active 0 (acc.d.price finding span) (report finding span) :=
  perform_does (.report (finding.toDiagnostic span)) trivial hplain

lemma report_charge (code : Code) (h : finding.topic = some code) :
    acc.Does active 0 (acc.d.charge (some code) span) (report finding span) :=
  (report_price hplain).le (h ▸ price_le_charge finding span)

lemma report_share (aspect : Aspect) (h : Aspect.ofTopic finding.topic = aspect) :
    acc.Does active 0 (acc.d.share aspect span) (report finding span) :=
  (report_price hplain).le (h ▸ (price_le_charge finding span).trans (charge_le_share _ span))

end Reports

section Resolution

variable {span : Span} {cyclic : Cyclic}

lemma checkArity_does (name : String) (expected found : Nat) :
    acc.Does active 0 (acc.d.charge (some .genericArity) span) (checkArity name expected found span) :=
  reportIf_does (report_charge (.inl rfl) .genericArity rfl)

lemma expand_does (id : SymbolId) (cyclic : Cyclic) :
    acc.Does active 0 (acc.d.charge (some .aliasCycle) span)
      (.lift (.expand active id span cyclic)) := by
  refine (Account.Gives.expand id span cyclic).le ?_
  split
  · exact zero_le _
  · exact le_rfl

lemma declaredType_does (name : String) (args : List Ty) :
    acc.Does active 0 (acc.d.marks span) (declaredType active name args span cyclic) := by
  have hunknown := acc.d.charge_le_marks (some .unknownType) span
  have harity := acc.d.charge_le_marks (some .genericArity) span
  refine (lookupType_does name).after fun found => ?_
  cases found with
  | none => exact ((report_charge (.inl rfl) .unknownType rfl).andPure).le hunknown
  | some id =>
    refine of_symbol fun declared _ => ?_
    cases declared.kind with
    | typeAlias =>
      refine ((checkArity_does name 0 _).andThen fun _ => expand_does id cyclic).le ?_
      simpa using acc.d.sum_charge_le_marks [some .genericArity, some .aliasCycle] (by decide) span
    | typeParam | structType | enumType | classType =>
      exact ((checkArity_does name _ _).andPure).le harity
    | value | function | variant =>
      exact ((report_charge (.inl rfl) .unknownType rfl).andPure).le hunknown

lemma namedType_does (name : String) (args : List Ty) (cyclic : Cyclic) :
    acc.Does active 0 (acc.d.marks span) (namedType active name args span cyclic) := by
  have harity := acc.d.charge_le_marks (some .genericArity) span
  unfold namedType
  split
  · exact ((checkArity_does name _ _).andPure).le harity
  · split
    · exact ((checkArity_does name _ _).andPure).le harity
    · split
      · exact ((checkArity_does name _ _).andPure).le harity
      · exact declaredType_does name args

mutual

theorem resolveIn_does : ∀ (t : TypeExpr) (cyclic : Cyclic),
    acc.Does active 0 (acc.d.marksIn t.spans) (resolveIn active t cyclic)
  | .named span name args, cyclic => by
    refine ((resolveAllIn_does args cyclic).andThen fun _ => namedType_does name _ _).le ?_
    rw [TypeExpr.spans, marksIn_cons, add_comm]
  | .union span members, cyclic => by
    refine ((resolveAllIn_does members cyclic).andPure).le ?_
    exact le_add_left _ _
  | .tuple span elements, cyclic => by
    refine ((resolveAllIn_does elements cyclic).andPure).le ?_
    exact le_add_left _ _
  | .fn span params result, cyclic => by
    refine ((resolveAllIn_does params cyclic).andThen
      fun found => (resolveIn_does result found.2).andPure).le ?_
    rw [TypeExpr.spans, marksIn_cons, marksIn_append]
    exact le_add_left _ _
  | .hole span, cyclic => by
    refine ((report_charge (.inl rfl) .unknownType rfl).andPure).le ?_
    exact (acc.d.charge_le_marks _ span).trans (le_add_right _ _)

theorem resolveAllIn_does : ∀ (ts : List TypeExpr) (cyclic : Cyclic),
    acc.Does active 0 (acc.d.marksIn (TypeExpr.spansAll ts)) (resolveAllIn active ts cyclic)
  | [], cyclic => by
    exact .pure _
  | t :: rest, cyclic => by
    rw [TypeExpr.spansAll, marksIn_append]
    exact (resolveIn_does t cyclic).andThen fun first => (resolveAllIn_does rest first.2).andPure

end

lemma resolveType_does (t : TypeExpr) : acc.Does [] 0 (acc.d.marksIn t.spans) (resolveType t) :=
  (resolveIn_does t []).andPure

lemma resolveOptional_does (t : Option TypeExpr) :
    acc.Does [] 0 (acc.d.marksIn (t.toList.flatMap TypeExpr.spans)) (resolveOptional t) := by
  cases t with
  | none => exact .pure _
  | some t =>
    rw [Option.toList_some, flatMap_singleton]
    exact (resolveType_does t).andPure

/-- Where an alias is declared it closes no cycle, and what its target leads to is foreseen. -/
lemma expandDeclared_does (id : SymbolId) : acc.Does [] 0 0 (expandDeclared id) :=
  of_symbol fun declared _ => Account.Does.andPure (.expand id declared.span [])

lemma paramInfos_gives (namedOnly : Bool) (decls : List ParamDecl) :
    acc.Gives [] 0 (acc.d.marksIn ((decls.filterMap (·.type)).flatMap TypeExpr.spans))
      (paramInfos namedOnly decls) fun infos => infos.map (fun info => (info.name, info.span)) =
        (decls.filter (·.kind != .separator)).map fun decl => (decl.name, decl.span) := by
  induction decls generalizing namedOnly with
  | nil => exact .answer fun _ => rfl
  | cons decl rest ih =>
    have htypes : (decl :: rest).filterMap (·.type) =
        decl.type.toList ++ rest.filterMap (·.type) := by
      rw [filterMap_eq_flatMap_toList, filterMap_eq_flatMap_toList, flatMap_cons]
    rw [paramInfos, htypes, flatMap_append, marksIn_append]
    refine (resolveOptional_does decl.type).andThen fun written => ?_
    cases hkind : decl.kind with
    | separator =>
      rw [filter_cons_of_neg (by simp [hkind])]
      exact ih true
    | ordinary | variadic | kwVariadic =>
      rw [filter_cons_of_pos (by simp [hkind])]
      exact (ih _).andPure fun others hothers => by simp [hothers]

/-- The fields that a record ends up with have different names. -/
lemma fieldMembers_gives (owner : String) (seen : List String) (fields : List FieldDecl) :
    acc.Gives [] 0 (acc.d.marksIn (fields.map (·.span)) +
        acc.d.marksIn ((fields.map (·.type)).flatMap TypeExpr.spans))
      (fieldMembers owner seen fields) fun members => Unseen seen (members.map (·.name)) := by
  induction fields generalizing seen with
  | nil => exact .answer fun _ => .nil seen
  | cons field rest ih =>
    have hsum : acc.d.marksIn ((field :: rest).map (·.span)) +
        acc.d.marksIn (((field :: rest).map (·.type)).flatMap TypeExpr.spans) =
        acc.d.marksIn field.type.spans + (acc.d.marks field.span + (acc.d.marksIn (rest.map (·.span)) +
          acc.d.marksIn ((rest.map (·.type)).flatMap TypeExpr.spans))) := by
      simp only [map_cons, flatMap_cons, marksIn_cons, marksIn_append]
      omega
    rw [fieldMembers, hsum]
    refine (resolveType_does field.type).andThen fun ty => ?_
    split
    · have hreport := acc.d.charge_le_marks (some .duplicateSymbol) field.span
      exact Account.Does.andThen ((report_charge (.inl rfl) .duplicateSymbol rfl).le hreport) fun _ => ih seen
    · rename_i hnew
      refine .le ((ih _).andPure fun others hothers => ?_) (le_add_left _ _)
      exact hothers.cons (by simpa using hnew)

end Resolution

section Statements

variable {span : Span}

lemma literalType_does (options : Options) (literal : Literal) (hint : Option Ty) (negative : Bool) :
    acc.Does active 0 (acc.d.charge (some .integerOutOfRange) span)
      (literalType options literal hint span negative) := by
  cases literal with
  | int digits => exact (reportIf_does (report_charge (.inl rfl) .integerOutOfRange rfl)).andPure
  | float | string | bool | null => exact .pure _

lemma findNarrowing_does (p : Program) (condition : ExprId) :
    acc.Does active 0 0 (findNarrowing p condition) := by
  unfold findNarrowing
  split
  · exact .pure _
  · exact (lookupValueType_does _).andPure

lemma subjectEnum_does (subject : Ty) : acc.Does active 0 0 (subjectEnum subject) := by
  have henum (ty : Ty) : acc.Does active 0 0 (enumOf? ty) := by
    unfold enumOf?
    split
    · split
      · exact .pure _
      · exact of_symbol fun _ _ => .pure _
    · exact .pure _
  refine Account.Does.after (.le (.mapM_silent fun ty _ => henum ty) (by simp)) fun found => ?_
  split
  · exact of_symbol fun _ _ => .pure _
  · exact .pure _

lemma checkOwner_does (variant : Symbol) (matched : Option MatchedEnum) :
    acc.Does active 0 (acc.d.charge (some .foreignVariant) span) (checkOwner variant matched span) := by
  unfold checkOwner
  split
  · exact .pure _
  · split
    · exact .pure _
    · exact of_symbol fun _ _ => (report_charge (.inl rfl) .foreignVariant rfl).andPure

lemma checkExhaustive_does (matched : Option MatchedEnum) (patterns : List Coverage) :
    acc.Does active 0 (acc.d.charge (some .nonExhaustiveMatch) span)
      (checkExhaustive matched patterns span) := by
  unfold checkExhaustive
  split
  · exact .pure _
  · refine of_symbol fun declared _ => ?_
    have hread (id : SymbolId) : acc.Does active 0 0 (symbol id) :=
      perform_does (.readSymbol id) trivial (.inl trivial)
    exact Account.Does.after (.le (.mapM_silent fun id _ => hread id) (by simp)) fun _ =>
      reportIf_does (report_charge (.inl rfl) .nonExhaustiveMatch rfl)

end Statements

end Rule

end StaticTyping
