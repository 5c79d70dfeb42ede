import StaticTyping.Proofs.Stored.Declaration
import StaticTyping.Rule.Stmt

/-! Statements keep states sound: the symbols that patterns, functions and variables declare, the
types that branches narrow names to, and the types that functions collect. -/

namespace StaticTyping

open List Option Narrowing Coverage

variable {ty subject : Ty} {receiver : Option SymbolId}

variable {n m : Nat} {env : Env} {span : Span}

lemma Ty.Sound.all_mono {ts : List Ty} (h : ∀ t ∈ ts, t.Sound {} n) (hnm : n ≤ m) :
    ∀ t ∈ ts, t.Sound {} m := fun t ht => .mono (h t ht) hnm

def Narrowing.Sound (E : Allowance) (n : Nat) (narrowing : Narrowing) : Prop :=
  narrowing.consequent.Sound E n ∧ narrowing.alternative.Sound E n

lemma Narrowing.ofType_sound {name : String} {holdsForNull : Bool} {current : Ty}
    (h : current.Sound {} n) : ∀ found ∈ ofType? name holdsForNull current, found.Sound {} n := by
  intro found hfound
  unfold ofType? at hfound
  split at hfound
  · cases hfound
  · split at hfound
    · cases hfound
      exact ⟨.prim _, h.removeNull trivial⟩
    · cases hfound
      exact ⟨h.removeNull trivial, .prim _⟩

def MatchedEnum.Sound (E : Allowance) (n : Nat) (matched : MatchedEnum) : Prop :=
  matched.symbol.index < n ∧ matched.σ.Sound E n

lemma MatchedEnum.Sound.mono {matched : MatchedEnum} (h : matched.Sound {} n) (hnm : n ≤ m) :
    matched.Sound {} m :=
  ⟨h.1.trans_le hnm, fun entry hentry => Ty.Sound.mono (h.2 entry hentry) hnm⟩

namespace Rule

lemma findNarrowing_answers (p : Program) (condition : ExprId) :
    Answers {} n (findNarrowing p condition) fun found => ∀ narrowing ∈ found, narrowing.Sound {} n := by
  unfold findNarrowing
  split
  · exact .pure nofun
  · rename_i name holdsForNull _
    refine (perform_answers (.lookupValueType name) trivial rfl).bind fun current hcurrent => ?_
    refine .pure fun narrowing hnarrowing => ?_
    obtain ⟨ty, hty, hfound⟩ := bind_eq_some_iff.mp hnarrowing
    exact ofType_sound (hcurrent ty hty) narrowing hfound

variable {matched : Option MatchedEnum}

section Patterns

lemma declareLocal_grows (h : ty.Sound {} n) (name : String) (span : Span) :
    Grows n (declareLocal name ty span) fun _ _ => True :=
  introduce_grows (.ofType (hint_sound h) rfl rfl rfl rfl rfl)

lemma enumOf_answers (h : ty.Sound {} n) : Answers {} n (enumOf? ty) fun found =>
      ∀ entry ∈ found, entry.1.index < n ∧
        ∀ types, entry.2 = some types → ∀ t ∈ types, t.Sound {} n := by
  unfold enumOf?
  split
  · rename_i head args
    split
    · exact .pure nofun
    · rename_i id hid
      refine (symbol_answers (h.symbol hid)).seq fun declared => .pure ?_
      split
      · rintro _ ⟨⟩
        refine ⟨h.symbol hid, fun types htypes => ?_⟩
        obtain rfl : args = some types := htypes
        exact h.inside
      · exact nofun
  · exact .pure nofun

lemma subjectEnum_answers (h : subject.Sound {} n) :
    Answers {} n (subjectEnum subject) fun found => ∀ matched ∈ found, matched.Sound {} n := by
  refine .bind (.mapM fun ty hty => enumOf_answers (h.of_mem_unionMembers hty)) fun found hfound => ?_
  split
  · rename_i id args hone
    have hmem : some (id, args) ∈ found := by
      have hfiltered : (id, args) ∈ found.filterMap (·) := by simp [hone]
      simpa using hfiltered
    obtain ⟨hid, hargs⟩ := hfound.1 _ hmem (id, args) rfl
    refine (symbol_answers hid).seq fun declared => .pure ?_
    rintro _ ⟨⟩
    exact ⟨hid, .ofArgs hargs⟩
  · exact .pure nofun

lemma declareBindings_grows {σ : Substitution} (hσ : σ.Sound {} n) {payload : List Ty}
    (hpayload : ∀ t ∈ payload, t.Sound {} n) (bindings : List Ident) :
    Grows n (declareBindings σ payload bindings) fun _ _ => True := by
  induction bindings generalizing n payload with
  | nil => exact .pure trivial
  | cons binding rest ih =>
    have hty : Ty.Sound {} n ((payload.head?.map (·.substitute σ)).getD .unknown) := by
      refine .getD fun t ht => ?_
      obtain ⟨first, hfirst, rfl⟩ := map_eq_some_iff.mp ht
      exact (hpayload first (mem_of_mem_head? hfirst)).substitute hσ
    refine (declareLocal_grows hty binding.name binding.span).bind fun _ m hm _ => ih ?_ ?_
    · exact fun entry hentry => Ty.Sound.mono (hσ entry hentry) hm
    · exact .all_mono (fun t ht => hpayload t (mem_of_mem_tail ht)) hm

lemma checkOwner_answers (h : ∀ e ∈ matched, e.Sound {} n)
    (variant : Symbol) : Answers {} n (checkOwner variant matched span) fun _ => True := by
  unfold checkOwner
  split
  · exact .pure trivial
  · rename_i expected
    split
    · exact .pure trivial
    · exact (symbol_answers (h expected rfl).1).seq fun _ => failing_answers (fun _ => trivial) _ span

variable {matched : Option MatchedEnum}

lemma variantPattern_grows {variant : SymbolId} (hvariant : variant.index < n)
    (h : ∀ e ∈ matched, e.Sound {} n) (bindings : List Ident) :
    Grows n (variantPattern variant bindings span matched) fun _ _ => True := by
  refine (symbol_answers hvariant).bind_grows fun declared hdeclared => ?_
  refine (checkOwner_answers h declared).seq_grows fun belongs => ?_
  refine (reportIf_answers ..).seq_grows fun _ => ?_
  have hσ : Substitution.Sound {} n ((matched.map (·.σ)).getD .empty) := by
    cases matched with
    | none => exact .empty
    | some expected => exact (h expected rfl).2
  exact (declareBindings_grows hσ hdeclared.payload bindings).bind fun _ _ _ _ => .pure trivial

lemma namePattern_grows (hsubject : subject.Sound {} n) (h : ∀ e ∈ matched, e.Sound {} n)
    (name : String) : Grows n (namePattern name span subject matched) fun _ _ => True := by
  have hcatch : Grows n (do declareLocal name subject span; return catchAll) fun _ _ => True :=
    (declareLocal_grows hsubject name span).bind fun _ _ _ _ => .pure trivial
  refine (lookupValue_answers name).bind_grows fun found hfound => ?_
  cases found with
  | none => exact hcatch
  | some id =>
    refine (symbol_answers (hfound id rfl)).seq_grows fun declared => ?_
    split
    · exact variantPattern_grows (hfound id rfl) h []
    · exact hcatch

lemma checkPattern_grows (hsubject : subject.Sound {} n) (h : ∀ e ∈ matched, e.Sound {} n)
    (options : Options) (pattern : Pattern) :
    Grows n (checkPattern options pattern subject matched) fun _ _ => True := by
  have hinvalid (finding : Finding) (span : Span) (bindings : List Ident) : Grows n (do
      report finding span
      declareBindings .empty [] bindings
      return invalid) fun _ _ => True :=
    (report_answers finding span).seq_grows fun _ =>
      (declareBindings_grows .empty (by simp) bindings).bind fun _ _ _ _ => .pure trivial
  unfold checkPattern
  split
  · exact .pure trivial
  · exact namePattern_grows hsubject h _
  · refine (literalType_answers ..).seq_grows fun ty => ?_
    split
    · exact .pure trivial
    · exact (failing_answers (fun _ => trivial) _ _).grows fun _ h => h
  · rename_i name bindings _
    refine (lookupValue_answers name.name).bind_grows fun found hfound => ?_
    cases found with
    | none => exact hinvalid _ _ bindings
    | some id =>
      refine (symbol_answers (hfound id rfl)).seq_grows fun declared => ?_
      split
      · exact variantPattern_grows (hfound id rfl) h bindings
      · exact hinvalid _ _ bindings

lemma checkExhaustive_answers (h : ∀ e ∈ matched, e.Sound {} n) (patterns : List Coverage) :
    Answers {} n (checkExhaustive matched patterns span) fun _ => True := by
  unfold checkExhaustive
  split
  · exact .pure trivial
  · rename_i expected
    refine (symbol_answers (h expected rfl).1).bind fun declared hdeclared => ?_
    refine .seq (.mapM fun variant hvariant => symbol_answers ?_) fun _ => reportIf_answers ..
    unfold uncovered at hvariant
    split at hvariant
    · cases hvariant
    · exact hdeclared.variants variant (mem_of_mem_filter hvariant)

end Patterns

section Functions

lemma checkAgainst_answers {expected : Ty} (h : expected.Sound {} n) (place : Place)
    (value : ExprId) : Answers {} n (checkAgainst env place value expected) fun _ => True :=
  (visit_answers (hint_sound h) value).seq fun _ => reportIf_answers ..

lemma bindingType_answers (decl : LetDecl) : Answers {} n (bindingType env decl) (Ty.Sound {} n) := by
  refine (resolveOptional_answers decl.type).bind fun written hwritten => ?_
  split
  · rename_i value declared hvalue
    have hdeclared := hwritten declared rfl
    exact (checkAgainst_answers hdeclared _ value).seq fun _ => .pure hdeclared
  · exact visit_answers noHint_sound _
  · exact (reportIf_answers ..).seq fun _ => .pure (.getD hwritten)

lemma declareSelf_grows (h : ∀ id ∈ receiver, id.index < n) :
    Grows n (declareSelf receiver span) fun _ _ => True := by
  unfold declareSelf
  split
  · exact .pure trivial
  · rename_i id
    refine (symbol_answers (h id rfl)).seq_grows fun owner => introduce_grows ?_
    exact .ofType (hint_sound (selfType_sound (h id rfl) owner)) rfl rfl rfl rfl rfl

lemma checkDefault_answers {params : List ParamInfo} (h : ∀ param ∈ params, param.ty.Sound {} n)
    (decl : ParamDecl) : Answers {} n (checkDefault env params decl) fun _ => True := by
  unfold checkDefault
  split
  · exact .pure trivial
  · refine checkAgainst_answers (.getD fun t ht => ?_) _ _
    obtain ⟨param, hparam, rfl⟩ := map_eq_some_iff.mp ht
    exact h param (mem_of_find?_eq_some hparam)

lemma declaredResult_sound {declared : Symbol} (h : declared.Sound {} n) (decl : FunctionDecl) :
    ∀ t ∈ declaredResult decl declared, t.Sound {} n := by
  intro t ht
  unfold declaredResult at ht
  split at ht
  · rename_i params result _ hty
    cases ht
    exact (h.ty _ hty).inside _ (.head _)
  · cases ht

lemma statements_grow (ids : List StmtId) : Grows n (ids.forM visitStmt) fun _ _ => True :=
  .forM fun _ _ _ _ => ⟨trivial, fun _ _ hm => ⟨hm, trivial⟩⟩

lemma checkBody_grows {declared : Option Ty} (h : ∀ t ∈ declared, t.Sound {} n) (body : Block) :
    Grows n (checkBody declared body) fun m returns => ∀ t ∈ returns, t.Sound {} m := by
  refine (perform_answers (.enterFunction declared) h rfl).seq_grows fun _ => ?_
  refine (statements_grow body.statements).bind fun _ m _ _ => ?_
  exact perform_grows .leaveFunction trivial

lemma fillFunctionType_answers {id : SymbolId} (hid : id.index < n)
    (hreceiver : ∀ owner ∈ receiver, owner.index < n) (hty : ty.Sound {} n) :
    Answers {} n (fillFunctionType id receiver ty) fun _ => True := by
  have hset : (Action.setType id ty).Takes {} n := ⟨trivial, hid, hty⟩
  refine (perform_answers _ hset rfl).seq fun _ => ?_
  split
  · exact .pure trivial
  · rename_i owner
    exact perform_answers (.retypeMethod owner id ty) ⟨trivial, hreceiver owner rfl, hty⟩ rfl

lemma inferredResult_sound {returns : List Ty} (h : ∀ t ∈ returns, t.Sound {} n) :
    (inferredResult returns).Sound {} n := by
  unfold inferredResult
  split
  · exact .prim _
  · exact .makeUnion h fun _ => trivial

lemma checkFunction_grows {id : SymbolId} (hid : id.index < n)
    (hreceiver : ∀ owner ∈ receiver, owner.index < n) (decl : FunctionDecl) :
    Grows n (checkFunction env id decl receiver) fun _ _ => True := by
  refine .bind (A := fun m (found : List ParamInfo × List Ty) =>
    (∀ param ∈ found.1, param.ty.Sound {} m) ∧ ∀ t ∈ found.2, t.Sound {} m) (inScope_grows ?_) ?_
  · refine (declareTypeParams_grows decl.typeParams).bind fun _ a hna _ => ?_
    have hself : ∀ owner ∈ receiver, owner.index < a :=
      fun owner howner => (hreceiver owner howner).trans_le hna
    refine (declareSelf_grows hself).bind fun _ b hab _ => ?_
    have hidb : id.index < b := by omega
    refine (symbol_answers hidb).bind_grows fun declared hdeclared => ?_
    refine (Answers.forM fun param _ => checkDefault_answers hdeclared.params param).seq_grows
      fun _ => ?_
    refine Grows.bind (.forM fun param hparam c hbc => ?_) fun _ c hbc _ => ?_
    · have hty := Ty.Sound.mono (hdeclared.params param hparam) hbc
      exact introduce_grows (.ofType (hint_sound hty) rfl rfl rfl rfl rfl)
    · have hidc : id.index < c := by omega
      refine (symbol_answers hidc).bind_grows fun current hcurrent => ?_
      refine (checkBody_grows (declaredResult_sound hcurrent decl) decl.body).bind ?_
      intro returns d hcd hreturns
      refine .pure ⟨fun param hparam => ?_, hreturns⟩
      exact .mono (hdeclared.params param hparam) (hbc.trans hcd)
  · rintro ⟨params, returns⟩ m hm ⟨hparams, hreturns⟩
    dsimp only
    split
    · exact .pure trivial
    · refine (fillFunctionType_answers (hid.trans_le hm) ?_ ?_).grows fun _ h => h
      · exact fun owner howner => (hreceiver owner howner).trans_le hm
      · exact .fn (forall_mem_map.mpr hparams) (inferredResult_sound hreturns)

variable {owner : SymbolId}

lemma checkMethod_grows (h : owner.index < n) (id : StmtId) :
    Grows n (checkMethod env owner id) fun _ _ => True := by
  unfold checkMethod
  split
  · rename_i decl _
    refine (perform_answers (E := {}) (.declaredSymbol id) trivial rfl).bind_grows fun found hfound => ?_
    cases found with
    | none => exact .pure trivial
    | some method =>
      refine checkFunction_grows (hfound method rfl) ?_ decl
      rintro _ ⟨⟩
      exact h
  · exact .pure trivial

lemma checkMethods_grows (h : owner.index < n) (decl : RecordDecl) :
    Grows n (checkMethods env owner decl) fun _ _ => True := by
  refine inScope_grows ?_
  refine (declareTypeParams_grows decl.typeParams).bind fun _ m hm _ => ?_
  exact .forM fun id _ k hk => checkMethod_grows ((h.trans_le hm).trans_le hk) id

end Functions

section Statements

lemma checkCondition_answers (condition : ExprId) :
    Answers {} n (checkCondition env condition) fun _ => True :=
  (visit_answers (hint_sound (.prim _)) condition).seq fun _ => reportIf_answers ..

lemma checkBranch_grows {narrowed : Option (String × Ty)}
    (h : ∀ entry ∈ narrowed, entry.2.Sound {} n) (block : Block) :
    Grows n (checkBranch narrowed block) fun _ _ => True := by
  refine inScope_grows ?_
  split
  · rename_i name ty
    have hnarrow : (Action.narrow name ty).Takes {} n := h (name, ty) rfl
    exact (perform_answers _ hnarrow rfl).seq_grows fun _ => statements_grow _
  · exact statements_grow _

lemma checkIf_grows (condition : ExprId) (consequent : Block) (alternative : Option Block) :
    Grows n (checkIf env condition consequent alternative) fun _ _ => True := by
  refine (checkCondition_answers condition).seq_grows fun _ => ?_
  refine (findNarrowing_answers env.program condition).bind_grows fun narrowing hnarrowing => ?_
  refine .bind (checkBranch_grows (fun entry hentry => ?_) consequent) fun _ m hm _ => ?_
  · obtain ⟨found, hfound, rfl⟩ := map_eq_some_iff.mp hentry
    exact (hnarrowing found hfound).1
  · split
    · refine checkBranch_grows (fun entry hentry => ?_) _
      obtain ⟨found, hfound, rfl⟩ := map_eq_some_iff.mp hentry
      exact .mono (hnarrowing found hfound).2 hm
    · exact .pure trivial

lemma checkFor_grows (binding : Ident) (iterable : ExprId) (body : Block) :
    Grows n (checkFor binding iterable body) fun _ _ => True := by
  refine (visitOnly_answers iterable).seq_grows fun _ => inScope_grows ?_
  exact (declareLocal_grows .unknown ..).bind fun _ _ _ _ => statements_grow _

lemma returnedType_answers {hint : Option Ty} (h : ∀ t ∈ hint, t.Sound {} n) (value : Option ExprId) :
    Answers {} n (returnedType env value hint span) fun found => found.1.Sound {} n := by
  unfold returnedType
  split
  · exact (visit_answers h _).bind fun _ hty => .pure hty
  · exact .pure (.prim _)

lemma checkReturn_answers (value : Option ExprId) :
    Answers {} n (checkReturn env value span) fun _ => True := by
  refine (perform_answers (E := {}) .currentFunction trivial rfl).bind fun found hfound => ?_
  cases found with
  | none =>
    refine (report_answers ..).seq fun _ => ?_
    exact .forM fun id _ => visitOnly_answers id
  | some context =>
    refine (returnedType_answers (hfound context rfl).declared value).bind fun returned hty => ?_
    have hnote := perform_answers (.noteReturn returned.1) hty rfl
    dsimp only
    split
    · exact (reportIf_answers ..).seq fun _ => hnote
    · exact hnote

lemma checkMatch_grows (subject : ExprId) (arms : List MatchArm) :
    Grows n (checkMatch env subject arms span) fun _ _ => True := by
  refine (visit_answers noHint_sound subject).bind_grows fun subjectType hsubject => ?_
  refine (subjectEnum_answers hsubject).bind_grows fun matched hmatched => ?_
  have hlater {m : Nat} (hm : n ≤ m) : ∀ e ∈ matched, e.Sound {} m :=
    fun e he => (hmatched e he).mono hm
  refine .bind (.mapM (A := fun _ _ => True) (fun _ _ _ _ h => h) fun arm _ m hm => ?_) ?_
  · refine inScope_grows ?_
    refine (checkPattern_grows (.mono hsubject hm) (hlater hm) env.options arm.pattern).bind
      fun _ _ _ _ => ?_
    exact (statements_grow _).bind fun _ _ _ _ => .pure trivial
  · intro coverage m hm _
    exact (checkExhaustive_answers (hlater hm) coverage).grows fun _ h => h

lemma checkFunctionDecl_grows (id : StmtId) (decl : FunctionDecl) :
    Grows n (checkFunctionDecl env id decl) fun _ _ => True := by
  refine (ensureRegistered_grows env.program id).bind fun found m _ hfound => ?_
  cases found with
  | none => exact .pure trivial
  | some function => exact checkFunction_grows (hfound function rfl) (by simp) decl

lemma checkRecordDecl_grows (id : StmtId) (decl : RecordDecl) :
    Grows n (checkRecordDecl env id decl) fun _ _ => True := by
  refine (ensureRegistered_grows env.program id).bind fun found m _ hfound => ?_
  cases found with
  | none => exact .pure trivial
  | some owner => exact checkMethods_grows (hfound owner rfl) decl

lemma statement_grows (id : StmtId) : Grows n (statement env id) fun _ _ => True := by
  unfold statement
  dsimp only
  cases (env.program.stmt id).kind with
  | bind decl =>
    exact (bindingType_answers decl).bind_grows fun _ hty =>
      introduce_grows (.ofType (hint_sound hty) rfl rfl rfl rfl rfl)
  | function decl => exact checkFunctionDecl_grows id decl
  | record kind decl => exact checkRecordDecl_grows id decl
  | enum | typeAlias => exact (ensureRegistered_grows ..).bind fun _ _ _ _ => .pure trivial
  | branch condition consequent alternative => exact checkIf_grows condition consequent alternative
  | whileLoop condition body =>
    exact (checkCondition_answers condition).seq_grows fun _ => inScope_grows (statements_grow _)
  | forLoop binding iterable body => exact checkFor_grows binding iterable body
  | ret value => exact (checkReturn_answers value).grows fun _ h => h
  | breakLoop | continueLoop => exact .pure trivial
  | cases subject arms => exact checkMatch_grows subject arms
  | expr value => exact (visitOnly_answers value).grows fun _ h => h
  | block block => exact inScope_grows (statements_grow _)

lemma program_grows (imports : List Ident) : Grows n (program env imports) fun _ _ => True := by
  refine .bind (.forM fun binding _ m _ => ?_) fun _ _ _ _ => ?_
  · exact introduce_grows (.ofType (hint_sound .unknown) rfl rfl rfl rfl rfl)
  · exact (registerDeclarations_grows _ _).bind fun _ _ _ _ => statements_grow _

end Statements

end Rule

end StaticTyping
