import StaticTyping.Proofs.Stored.Expr
import StaticTyping.Rule.Expr

/-! What calls know of their callees is sound, and so is the type of every expression. -/

namespace StaticTyping

open Callee List Option

variable {declared : Symbol} {value : Supplied}

variable {E : Allowance} {n : Nat} {env : Env} {span : Span}

def Callee.Sound (E : Allowance) (n : Nat) : Callee → Prop
  | .bound sig result => (∀ param ∈ sig.params, param.ty.Sound E n) ∧ result.Sound E n
  | .unnamed params result => (∀ t ∈ params, t.Sound E n) ∧ result.Sound E n
  | .untracked result => result.Sound E n

/-- No union in the type that a value is cast to is empty. -/
def ExprKind.FullCast : ExprKind → Prop
  | .cast _ target => target.Full
  | _ => True

lemma Ty.Sound.bare {name : String} {id : Option SymbolId} (h : ∀ symbol ∈ id, symbol.index < n) :
    (Ty.bare name id).Sound E n := .named h nofun

lemma ParamInfo.restValue_sound {param : ParamInfo} (h : param.ty.Sound E n) :
    param.restValue.Sound E n := by
  refine .getD fun t ht => ?_
  obtain ⟨entry, hentry, rfl⟩ := map_eq_some_iff.mp ht
  exact (h.mapEntry hentry).2

def Supplied.Sound (E : Allowance) (n : Nat) : Supplied → Prop
  | .expr _ => True
  | .element ty _ => ty.Sound E n

def Binding.Sound (E : Allowance) (n : Nat) (b : Binding) : Prop := ∀ param ∈ b.free, param.ty.Sound E n

namespace Rule

section Callee

lemma calleeOfType_answers {ty : Ty} (h : ty.Sound E n) :
    Answers E n (calleeOfType ty span) (Sound E n) := by
  unfold calleeOfType
  split
  · rename_i params result
    obtain ⟨hresult, hparams⟩ := forall_mem_cons.mp h.inside
    exact .pure ⟨hparams, hresult⟩
  · exact .pure h
  · split
    · exact .pure Ty.Formed.unknown
    · exact failing_answers Ty.Formed.error _ span

lemma methodCallee_answers {method : SymbolId} {σ : Substitution} (hmethod : method.index < n)
    (hσ : σ.Sound E n) (id : ExprId) :
    Answers E n (methodCallee id method σ) (Sound E n) := by
  refine (symbol_answers hmethod).bind fun declared hdeclared => ?_
  have hty : Ty.Sound E n ((declared.ty.map (·.substitute σ)).getD .unknown) := by
    refine .getD fun t ht => ?_
    obtain ⟨ty, hty, rfl⟩ := map_eq_some_iff.mp ht
    exact (hdeclared.ty ty hty).substitute hσ
  refine (record_answers hty id).seq fun _ => .pure ⟨?_, hty.resultOrUnknown⟩
  exact forall_mem_map.mpr fun param hparam => (hdeclared.params param hparam).substitute hσ

lemma ownerName_answers {variant : Symbol} (h : variant.Sound E n) :
    Answers E n (ownerName variant) fun _ => True := by
  unfold ownerName
  split
  · exact .pure trivial
  · rename_i id hid
    exact (symbol_answers (h.owner id hid)).seq fun _ => .pure trivial

lemma variantCallee_answers (h : declared.Sound E n) (id : ExprId) :
    Answers E n (variantCallee id declared) (Sound E n) := by
  refine (ownerName_answers h).seq fun owner => ?_
  refine (record_answers h.tyOrUnknown id).seq fun _ => .pure ⟨?_, .bare h.owner⟩
  refine forall_mem_map.mpr ?_
  rintro ⟨ty, position⟩ hmem
  exact h.payload ty (fst_mem_of_mem_zipIdx hmem)

lemma constructorParams_answers (h : declared.Sound E n) :
    Answers E n (constructorParams declared) fun params => ∀ param ∈ params, param.ty.Sound E n := by
  unfold constructorParams
  split
  · exact .pure nofun
  · rename_i method hmethod
    obtain ⟨m, hm, hid⟩ := bind_eq_some_iff.mp hmethod
    have hlt := (h.members m (mem_of_find?_eq_some hm)).method method hid
    exact (symbol_answers hlt).bind fun _ hconstructor => .pure hconstructor.params

lemma constructorCallee_answers {type : SymbolId} (h : type.index < n) (id : ExprId) :
    Answers E n (constructorCallee id type span) (Sound E n) := by
  refine (symbol_answers h).bind fun declared hdeclared => ?_
  have hfail (finding : Finding) : Answers E n
      (do report finding span; record id .error; return .untracked .error) (Sound E n) :=
    (report_answers finding span).bind fun _ hE =>
      (record_answers (.error hE) id).seq fun _ => .pure (.error hE)
  cases declared.kind with
  | classType =>
    have hresult : (Ty.named ⟨declared.name, some type, true⟩ none).Sound E n :=
      .named (by rintro _ ⟨⟩; exact h) nofun
    refine (constructorParams_answers hdeclared).bind fun params hparams => ?_
    have hfn : (Ty.fn (params.map (·.ty)) (.named ⟨declared.name, some type, true⟩ none)).Sound E n :=
      .fn (forall_mem_map.mpr hparams) hresult
    exact (record_answers hfn id).seq fun _ => .pure ⟨hparams, hresult⟩
  | structType | value | function | enumType | typeAlias | variant | typeParam => exact hfail _

lemma valueCallee_answers (id : ExprId) : Answers E n (valueCallee env id) (Sound E n) :=
  (visit_answers noHint_sound id).bind fun _ hty => calleeOfType_answers hty

lemma nameCallee_answers (id : ExprId) (name : String) :
    Answers E n (nameCallee env id name) (Sound E n) := by
  refine (lookupValue_answers name).bind fun found hfound => ?_
  cases found with
  | some valueId =>
    refine (symbol_answers (hfound valueId rfl)).bind fun declared hdeclared => ?_
    split
    · refine (record_answers hdeclared.tyOrUnknown id).seq fun _ => .pure ⟨hdeclared.params, ?_⟩
      exact hdeclared.tyOrUnknown.resultOrUnknown
    · exact variantCallee_answers hdeclared id
    · exact valueCallee_answers id
  | none =>
    refine (lookupType_answers name).bind fun found hfound => ?_
    cases found with
    | some type => exact constructorCallee_answers (hfound type rfl) id
    | none => exact valueCallee_answers id

lemma memberCallee_answers (id object : ExprId) (property : Ident) :
    Answers E n (memberCallee env id object property) (Sound E n) := by
  refine (visit_answers noHint_sound object).bind fun objectType hobject => ?_
  refine (lookupMember_answers hobject property.name).bind fun found hfound => ?_
  split
  · obtain ⟨-, hmethod, hσ⟩ := hfound
    exact methodCallee_answers (hmethod _ rfl) hσ id
  · exact (record_answers hfound.1 id).seq fun _ => calleeOfType_answers hfound.1
  · refine (report_answers ..).bind fun _ hE => ?_
    exact (record_answers (.error hE) id).seq fun _ => .pure (.error hE)
  · exact (record_answers .unknown id).seq fun _ => .pure Ty.Formed.unknown

lemma resolveCallee_answers (id : ExprId) : Answers E n (resolveCallee env id) (Sound E n) := by
  unfold resolveCallee
  split
  · exact nameCallee_answers id _
  · exact memberCallee_answers id _ _
  · exact valueCallee_answers id

end Callee

variable {hint : Option Ty}

section Binding

lemma isMutableVariable_answers (value : Supplied) :
    Answers E n (isMutableVariable env value) fun _ => True := by
  unfold isMutableVariable
  split
  · exact .pure trivial
  · split
    · rename_i name hname
      refine (lookupValue_answers name).bind fun found hfound => ?_
      cases found with
      | none => exact .pure trivial
      | some id => exact (symbol_answers (hfound id rfl)).seq fun _ => .pure trivial
    · exact .pure trivial

lemma checkMutable_answers (param : ParamInfo) (value : Supplied) :
    Answers E n (checkMutable env param value) fun _ => True := by
  unfold checkMutable
  split
  · exact (isMutableVariable_answers value).seq fun _ => reportIf_answers ..
  · exact .pure trivial

lemma suppliedType_answers (hhint : ∀ t ∈ hint, t.Sound E n)
    (hvalue : value.Sound E n) : Answers E n (suppliedType hint value) (Ty.Sound E n) := by
  cases value with
  | expr id => exact visit_answers hhint id
  | element ty span => exact .pure hvalue

lemma checkSupplied_answers {expected : Ty} (hexpected : expected.Sound E n) (hvalue : value.Sound E n)
    (param : ParamInfo) : Answers E n (checkSupplied env param expected value) (Ty.Sound E n) := by
  refine (suppliedType_answers (hint_sound hexpected) hvalue).bind fun found hfound => ?_
  refine (reportIf_answers ..).seq fun _ => ?_
  exact (checkMutable_answers param value).seq fun _ => .pure hfound

variable {sig : Signature} {b : Binding}

section

variable (hsig : ∀ param ∈ sig.params, param.ty.Sound E n)

include hsig

lemma bindNext_answers (hb : b.Sound E n) (hvalue : value.Sound E n) :
    Answers E n (bindNext env sig b value) fun bound => bound.1.Sound E n ∧ bound.2.Sound E n := by
  unfold bindNext
  split
  · rename_i param free hfree
    have hall : ∀ p ∈ param :: free, p.ty.Sound E n := fun p hp => hb p (hfree ▸ hp)
    obtain ⟨hparam, hrest⟩ := forall_mem_cons.mp hall
    refine (reportIf_answers ..).seq fun _ => ?_
    exact (checkSupplied_answers hparam hvalue param).bind fun ty hty => .pure ⟨hty, hrest⟩
  · rename_i param _ hvariadic
    have hparam := hsig param (mem_of_find?_eq_some hvariadic)
    have hrest : param.restElement.Sound E n := .getD fun _ ht => hparam.arrayElement ht
    exact (checkSupplied_answers hrest hvalue param).bind fun ty hty => .pure ⟨hty, hb⟩
  · refine (report_answers ..).seq fun _ => ?_
    exact (suppliedType_answers noHint_sound hvalue).bind fun ty hty => .pure ⟨hty, hb⟩

lemma bindEach_answers (hb : b.Sound E n)
    {values : List Supplied} (hvalues : ∀ value ∈ values, value.Sound E n) :
    Answers E n (bindEach env sig b values) fun bound =>
      (∀ t ∈ bound.1, t.Sound E n) ∧ bound.2.Sound E n := by
  induction values generalizing b with
  | nil => exact .pure ⟨nofun, hb⟩
  | cons value rest ih =>
    obtain ⟨hvalue, hrest⟩ := forall_mem_cons.mp hvalues
    refine (bindNext_answers hsig hb hvalue).bind fun first hfirst => ?_
    refine (ih hfirst.2 hrest).bind fun others hothers => .pure ⟨?_, hothers.2⟩
    exact forall_mem_cons.mpr ⟨hfirst.1, hothers.1⟩

lemma checkNamed_answers (name : String)
    (value : ExprId) : Answers E n (checkNamed env sig name value span) (Ty.Sound E n) := by
  have hvalue : (Supplied.expr value).Sound E n := trivial
  unfold checkNamed
  split
  · rename_i param hparam
    exact checkSupplied_answers (hsig param (mem_of_find?_eq_some hparam)) hvalue param
  · rename_i param _ hparam
    have hrest := ParamInfo.restValue_sound (hsig param (mem_of_find?_eq_some hparam))
    exact checkSupplied_answers hrest hvalue param
  · exact (report_answers ..).seq fun _ => visit_answers noHint_sound value

lemma bindNamed_answers (hb : b.Sound E n) (name : String) (value : ExprId) (repeated : Finding) :
    Answers E n (bindNamed env sig b name value span repeated) fun bound =>
      bound.1.Sound E n ∧ bound.2.Sound E n := by
  unfold bindNamed
  split
  · refine (report_answers ..).seq fun _ => ?_
    exact (visit_answers noHint_sound value).bind fun ty hty => .pure ⟨hty, hb⟩
  · exact (checkNamed_answers hsig name value).bind fun ty hty => .pure ⟨hty, hb⟩

lemma bindSpread_answers (hb : b.Sound E n) {ty : Ty}
    (hty : ty.Sound E n) : Answers E n (bindSpread env sig b ty span) (Binding.Sound E n) := by
  unfold bindSpread
  split
  · rename_i elements
    refine (bindEach_answers hsig hb ?_).bind fun bound hbound => .pure hbound.2
    exact forall_mem_map.mpr hty.inside
  · split
    · exact .pure hb
    · split
      · exact failing_answers (fun _ => hb) _ span
      · exact failing_answers (fun _ => hb) _ span
      · exact (reportIf_answers ..).seq fun _ => .pure hb

end

lemma spreadKeyTypes_answers (entries : List MapEntry) :
    Answers E n (spreadKeyTypes env entries) fun types =>
      (∀ t ∈ types, t.Sound E n) ∧ (types = [] → entries = []) :=
  .mapM fun entry _ => (visit_answers (hint_sound (.prim _)) entry.key).bind fun _ hty =>
    (reportIf_answers ..).seq fun _ => .pure hty

variable (hsig : ∀ param ∈ sig.params, param.ty.Sound E n)

include hsig

lemma bindEntries_answers (hb : b.Sound E n)
    (entries : List (String × MapEntry)) : Answers E n (bindEntries env sig b entries) fun bound =>
      ((∀ t ∈ bound.1, t.Sound E n) ∧ (bound.1 = [] → entries = [])) ∧ bound.2.Sound E n := by
  induction entries generalizing b with
  | nil => exact .pure ⟨⟨nofun, fun _ => rfl⟩, hb⟩
  | cons entry rest ih =>
    refine (bindNamed_answers hsig hb entry.1 entry.2.value _).bind fun first hfirst => ?_
    refine (ih hfirst.2).bind fun others hothers => .pure ⟨⟨?_, nofun⟩, hothers.2⟩
    exact forall_mem_cons.mpr ⟨hfirst.1, hothers.1.1⟩

lemma bindMapLiteral_answers (hb : b.Sound E n) (id : ExprId) (entries : List MapEntry) :
    Answers E n (bindMapLiteral env sig b id entries) (Binding.Sound E n) := by
  have hopen : (Ty.map .string .unknown).Sound E n := .map (.prim _) .unknown
  refine (spreadKeyTypes_answers entries).bind fun keyTypes hkeys => ?_
  split
  · refine (Answers.forM fun entry _ => visitOnly_answers entry.value).seq fun _ => ?_
    exact (record_answers hopen id).seq fun _ => .pure hb
  · rename_i keys hkeysOf
    refine (bindEntries_answers hsig hb (keys.zip entries)).bind fun bound hbound => ?_
    refine (record_answers ?_ id).seq fun _ => .pure hbound.2
    split
    · exact hopen
    · rename_i hne
      have hentries : entries = [] → E.errors := fun hnil => (hne (isEmpty_iff.mpr hnil)).elim
      refine .map (.makeUnion hkeys.1 fun hnil => hentries (hkeys.2 hnil))
        (.makeUnion hbound.1.1 fun hnil => hentries ?_)
      rcases zip_eq_nil_iff.mp (hbound.1.2 hnil) with hempty | hempty
      · subst hempty
        cases entries with
        | nil => rfl
        | cons entry rest => simp [mapM_cons, bind_eq_some_iff] at hkeysOf
      · exact hempty

omit hsig in
lemma bindKeywordSpread_answers (hb : b.Sound E n) (ty : Ty) :
    Answers E n (bindKeywordSpread sig b ty span) (Binding.Sound E n) := by
  unfold bindKeywordSpread
  split
  · exact .pure hb
  · split
    · exact failing_answers (fun _ => hb) _ span
    · refine (reportIf_answers ..).seq fun _ => ?_
      refine .seq (A := fun _ => True) ?_ fun _ => .pure hb
      unfold checkRestValue
      split
      · exact reportIf_answers ..
      · exact .pure trivial

lemma bindArgument_answers (hb : b.Sound E n)
    (arg : Argument) : Answers E n (bindArgument env sig b arg) (Binding.Sound E n) := by
  have hexpr (value : ExprId) : (Supplied.expr value).Sound E n := trivial
  unfold bindArgument
  split
  · exact (bindNext_answers hsig hb (hexpr _)).bind fun _ hbound => .pure hbound.2
  · exact (bindNamed_answers hsig hb _ arg.value _).bind fun _ hbound => .pure hbound.2
  · split
    · rename_i elements _
      refine (bindEach_answers hsig hb ?_).bind fun bound hbound => ?_
      · exact forall_mem_map.mpr fun value _ => hexpr value
      · exact (record_answers (.tuple hbound.1) arg.value).seq fun _ => .pure hbound.2
    · exact (visit_answers noHint_sound arg.value).bind fun _ hty => bindSpread_answers hsig hb hty
  · split
    · exact bindMapLiteral_answers hsig hb arg.value _
    · exact (visit_answers noHint_sound arg.value).seq fun ty => bindKeywordSpread_answers hb ty

lemma bindArguments_answers (args : List Argument) :
    Answers E n (bindArguments env sig args span) fun _ => True := by
  have hstart : (Binding.start sig).Sound E n :=
    fun param hparam => hsig param (mem_of_mem_filter hparam)
  refine (Answers.foldlM hstart fun b arg _ hb => bindArgument_answers hsig hb arg).seq fun b => ?_
  unfold reportMissing
  split
  · exact .pure trivial
  · exact .forM fun param _ => reportIf_answers ..

end Binding

section Counting

variable {params : List Ty}

lemma checkExpected_answers (expected : Option Ty) (found : Ty) :
    Answers E n (checkExpected expected found span) fun _ => True := by
  unfold checkExpected
  split
  · exact reportIf_answers ..
  · exact .pure trivial

variable (hparams : ∀ t ∈ params, t.Sound E n)

include hparams

lemma countValue_answers (position : Nat) (value : ExprId) :
    Answers E n (countValue env params position value) (Ty.Sound E n) := by
  have hhint : ∀ t ∈ params[position]?, t.Sound E n := fun t ht => hparams t (mem_of_getElem? ht)
  refine (visit_answers hhint value).bind fun found hfound => ?_
  exact (checkExpected_answers ..).seq fun _ => .pure hfound

lemma countElements_answers (position : Nat) (elements : List ExprId) :
    Answers E n (countElements env params position elements) fun types => ∀ t ∈ types, t.Sound E n := by
  induction elements generalizing position with
  | nil => exact .pure nofun
  | cons element rest ih =>
    refine (countValue_answers hparams position element).bind fun ty hty => ?_
    refine (ih (position + 1)).bind fun types htypes => .pure ?_
    exact forall_mem_cons.mpr ⟨hty, htypes⟩

omit hparams in
lemma countTypes_answers (position : Nat) (types : List Ty) :
    Answers E n (countTypes params span position types) fun _ => True := by
  induction types generalizing position with
  | nil => exact .pure trivial
  | cons ty rest ih => exact (checkExpected_answers ..).seq fun _ => ih (position + 1)

omit hparams in
lemma countSpread_answers (m : Count) (ty : Ty) :
    Answers E n (countSpread params m ty span) fun _ => True := by
  unfold countSpread
  split
  · exact (countTypes_answers ..).seq fun _ => .pure trivial
  · split
    · exact .pure trivial
    · exact failing_answers (fun _ => trivial) _ span

lemma countArgument_answers (m : Count) (arg : Argument) :
    Answers E n (countArgument env params m arg) fun _ => True := by
  unfold countArgument
  split
  · exact (countValue_answers hparams ..).seq fun _ => .pure trivial
  · exact (report_answers ..).seq fun _ => (visitOnly_answers _).seq fun _ => .pure trivial
  · split
    · refine (countElements_answers hparams ..).bind fun types htypes => ?_
      exact (record_answers (.tuple htypes) arg.value).seq fun _ => .pure trivial
    · exact (visit_answers noHint_sound arg.value).seq fun _ => countSpread_answers ..
  · exact (visitOnly_answers _).seq fun _ => failing_answers (fun _ => trivial) _ _

lemma countArguments_answers (args : List Argument) :
    Answers E n (countArguments env params args span) fun _ => True := by
  refine (Answers.foldlM trivial fun m arg _ _ => countArgument_answers hparams m arg).seq fun m => ?_
  unfold reportCount
  split
  · exact .pure trivial
  · split
    · exact (report_answers ..).done
    · exact reportIf_answers ..

end Counting

lemma callType_answers (callee : ExprId) (args : List Argument) :
    Answers E n (callType env callee args span) (Ty.Sound E n) := by
  refine (resolveCallee_answers callee).bind fun found hfound => ?_
  cases found with
  | bound sig result => exact (bindArguments_answers hfound.1 args).seq fun _ => .pure hfound.2
  | unnamed params result =>
    exact (countArguments_answers hfound.1 args).seq fun _ => .pure hfound.2
  | untracked result =>
    exact (Answers.forM fun arg _ => visitOnly_answers arg.value).seq fun _ => .pure hfound

lemma nameType_answers (name : String) : Answers E n (nameType name span) (Ty.Sound E n) := by
  refine (perform_answers (.lookupValueType name) trivial rfl).bind fun found hfound => ?_
  cases found with
  | some ty => exact .pure (hfound ty rfl)
  | none => exact failing_answers .error _ span

lemma valueType_answers (h : ∀ t ∈ hint, t.Sound E n) {id : ExprId}
    (hcast : ¬E.errors → (env.exprKind id).FullCast) :
    Answers E n (valueType env id hint) (Ty.Sound E n) := by
  unfold valueType
  cases hkind : env.exprKind id with
  | name name => exact nameType_answers name
  | literal literal => exact literalType_answers ..
  | unary op operand => exact unaryType_answers h op operand
  | binary op left right => exact binaryType_answers h op left right
  | assign op target value => exact assignmentType_answers op target value
  | call callee args => exact callType_answers callee args
  | member object property => exact memberType_answers object property
  | index object position => exact indexType_answers object position
  | record name fields => exact recordType_answers name fields
  | array elements => exact arrayType_answers h elements
  | map entries => exact mapType_answers h entries
  | tuple elements => exact tupleType_answers h elements
  | cast value target =>
    rw [hkind] at hcast
    exact castType_answers value hcast
  | group inner => exact visit_answers h inner
  | hole => exact failing_answers .error _ _

lemma expression_answers {role : Role} (h : role.Sound E n) {id : ExprId}
    (hcast : ¬E.errors → (env.exprKind id).FullCast) :
    Answers E n (expression env role id) (Ty.Sound E n) := by
  have htype : Answers E n (roleType env role id) (Ty.Sound E n) := by
    cases role with
    | value hint => exact valueType_answers h hcast
    | target => exact targetType_answers (valueType_answers noHint_sound hcast) id
  exact htype.bind fun ty hty => (record_answers hty id).seq fun _ => .pure hty

end Rule

end StaticTyping
