import StaticTyping.Proofs.Stored.Request
import StaticTyping.Rule.Aggregate
import StaticTyping.Rule.Assignment
import StaticTyping.Rule.Access

/-! The types that rules for types and for expressions other than calls answer are sound. -/

namespace StaticTyping

open Ty List Option

variable {E : Allowance} {n : Nat} {object : Ty} {hint : Option Ty}

variable {span : Span} {env : Env}

namespace Rule

section Resolution

lemma checkArity_answers (name : String) (expected found : Nat) (span : Span) :
    Answers E n (checkArity name expected found span) fun _ => True :=
  reportIf_answers _ _ span

variable {active : List String} {name : String} {args : List Ty} {cyclic : Cyclic}

lemma declaredType_answers (hargs : ∀ t ∈ args, t.Sound E n) (hcyclic : ∀ name ∈ cyclic, E.errors) :
    Answers E n (declaredType active name args span cyclic) (ResolvesTo E n) := by
  have hfail (finding : Finding) :
      Answers E n (do report finding span; return (error, cyclic)) (ResolvesTo E n) :=
    failing_answers (fun hE => ⟨.error hE, hcyclic⟩) finding span
  refine (lookupType_answers name).bind fun found hfound => ?_
  cases found with
  | none => exact hfail _
  | some id =>
    have hid : id.index < n := hfound id rfl
    refine (symbol_fits hid).bind fun declared hdeclared => ?_
    cases hkind : declared.kind with
    | typeParam => exact (checkArity_answers ..).seq fun _ => .pure ⟨.param name, hcyclic⟩
    | structType | enumType | classType =>
      refine (checkArity_answers ..).seq fun _ =>
        .pure ⟨.named ?_ fun types htypes => ?_, hcyclic⟩
      · rintro _ ⟨⟩
        exact hid
      · split at htypes
        · cases htypes
        · cases htypes
          exact hargs
    | typeAlias =>
      refine (checkArity_answers ..).seq fun _ => expand_answers hid ?_ hcyclic ..
      exact fun hno => (hdeclared.2 hno).1 hkind
    | value | function | variant => exact hfail _

lemma namedType_answers (hargs : ∀ t ∈ args, t.Sound E n) (hcyclic : ∀ name ∈ cyclic, E.errors) :
    Answers E n (namedType active name args span cyclic) (ResolvesTo E n) := by
  have harg (i : Nat) : (args[i]?.getD .unknown).Sound E n :=
    .getD fun t ht => hargs t (mem_of_getElem? ht)
  unfold namedType
  split
  · exact (checkArity_answers ..).seq fun _ => .pure ⟨.prim _, hcyclic⟩
  · split
    · exact (checkArity_answers ..).seq fun _ => .pure ⟨.array (harg 0), hcyclic⟩
    · split
      · exact (checkArity_answers ..).seq fun _ => .pure ⟨.map (harg 0) (harg 1), hcyclic⟩
      · exact declaredType_answers hargs hcyclic

mutual

theorem resolveIn_answers (active : List String) : ∀ {t : TypeExpr} {cyclic : Cyclic},
    (¬E.errors → t.Full) → (∀ name ∈ cyclic, E.errors) →
    Answers E n (resolveIn active t cyclic) (ResolvesTo E n)
  | .named span name args, cyclic, hfull, hcyclic => by
    have hargs : ¬E.errors → ∀ t ∈ args, t.Full := fun hno => by
      cases hfull hno with
      | named h => exact h
    exact (resolveAllIn_answers active hargs hcyclic).bind fun _ h => namedType_answers h.1 h.2.1
  | .union _ members, cyclic, hfull, hcyclic => by
    have hmembers : ¬E.errors → members ≠ [] ∧ ∀ t ∈ members, t.Full := fun hno => by
      cases hfull hno with
      | union hne h => exact ⟨hne, h⟩
    refine (resolveAllIn_answers active (fun hno => (hmembers hno).2) hcyclic).bind fun _ h => ?_
    refine .pure ⟨.makeUnion h.1 fun hnil => by_contra fun hno => ?_, h.2.1⟩
    exact (hmembers hno).1 (h.2.2 hnil)
  | .tuple _ elements, cyclic, hfull, hcyclic => by
    have helements : ¬E.errors → ∀ t ∈ elements, t.Full := fun hno => by
      cases hfull hno with
      | tuple h => exact h
    exact (resolveAllIn_answers active helements hcyclic).bind fun _ h => .pure ⟨.tuple h.1, h.2.1⟩
  | .fn _ params result, cyclic, hfull, hcyclic => by
    have hparts : ¬E.errors → (∀ t ∈ params, t.Full) ∧ result.Full := fun hno => by
      cases hfull hno with
      | fn hparams hresult => exact ⟨hparams, hresult⟩
    refine (resolveAllIn_answers active (fun hno => (hparts hno).1) hcyclic).bind fun _ hparams => ?_
    refine (resolveIn_answers active (fun hno => (hparts hno).2) hparams.2.1).bind fun _ h => ?_
    exact .pure ⟨.fn hparams.1 h.1, h.2⟩
  | .hole span, cyclic, _, hcyclic => by
    exact failing_answers (fun hE => ⟨.error hE, hcyclic⟩) _ span

theorem resolveAllIn_answers (active : List String) : ∀ {ts : List TypeExpr} {cyclic : Cyclic},
    (¬E.errors → ∀ t ∈ ts, t.Full) → (∀ name ∈ cyclic, E.errors) →
    Answers E n (resolveAllIn active ts cyclic) fun found =>
      (∀ t ∈ found.1, t.Sound E n) ∧ (∀ name ∈ found.2, E.errors) ∧ (found.1 = [] → ts = [])
  | [], cyclic, _, hcyclic => by
    exact .pure ⟨nofun, hcyclic, fun _ => rfl⟩
  | t :: rest, cyclic, hfull, hcyclic => by
    refine (resolveIn_answers active (fun hno => hfull hno t (.head _)) hcyclic).bind
      fun first hfirst => ?_
    refine (resolveAllIn_answers active (fun hno x hx => hfull hno x (.tail _ hx)) hfirst.2).bind
      fun others hothers => .pure ⟨?_, hothers.2.1, nofun⟩
    exact forall_mem_cons.mpr ⟨hfirst.1, hothers.1⟩

end

lemma expandAlias_answers {id : SymbolId} (hid : id.index < n) (hexpands : ¬E.errors → E.expands id)
    (hcyclic : ∀ name ∈ cyclic, E.errors) :
    Answers E n (expandAlias active id span cyclic) (ResolvesTo E n) := by
  refine (symbol_fits hid).bind fun declared hdeclared => ?_
  have hleads := fun hno => (hdeclared.2 hno).2 (hexpands hno)
  split
  · rename_i ty hty
    exact .pure ⟨hdeclared.1.ty ty hty, hcyclic⟩
  · rename_i hty htarget
    refine .pure ⟨.error (by_contra fun hno => ?_), hcyclic⟩
    obtain ⟨target, hsome, -⟩ := hleads hno hty
    cases htarget.symm.trans hsome
  · rename_i target hty htarget
    split
    · rename_i hactive
      refine (report_answers ..).bind fun _ hE => .pure ⟨.error hE, fun _ _ => hE⟩
    · have hfull (hno : ¬E.errors) : target.Full := by
        obtain ⟨written, hsome, hwritten⟩ := hleads hno hty
        cases htarget.symm.trans hsome
        exact hwritten
      refine (resolveIn_answers _ hfull hcyclic).bind fun found hfound => ?_
      -- An alias on a cycle gets the error type, any other the type found.
      have hsound : (if found.2.contains declared.name then error else found.1).Sound E n := by
        split
        · rename_i hmem
          exact .error (hfound.2 _ (contains_iff_mem.mp hmem))
        · exact hfound.1
      exact (perform_answers (.fillType id _) (by exact ⟨hid, hsound⟩) rfl).seq fun _ => .pure ⟨hsound, hfound.2⟩

lemma resolveType_answers {t : TypeExpr} (h : ¬E.errors → t.Full) :
    Answers E n (resolveType t) (Sound E n) :=
  (resolveIn_answers [] h (by simp)).bind fun _ hfound => .pure hfound.1

lemma resolveOptional_answers (t : Option TypeExpr) :
    Answers {} n (resolveOptional t) fun found => ∀ ty ∈ found, ty.Sound {} n := by
  cases t with
  | none => exact .pure nofun
  | some t =>
    refine (resolveType_answers fun hno => (hno trivial).elim).bind fun ty hty => .pure ?_
    rintro _ ⟨⟩
    exact hty

end Resolution

section Operators

lemma literalType_answers (options : Options) (literal : Literal) (hint : Option Ty) (span : Span)
    (negative : Bool) : Answers E n (literalType options literal hint span negative) (Sound E n) := by
  cases literal with
  | int digits => exact (reportIf_answers _ _ span).seq fun _ => .pure (.prim _)
  | float | string | bool | null => exact .pure (.prim _)

variable {hint : Option Ty}

variable (hhint : ∀ t ∈ hint, t.Sound E n)

include hhint

lemma signedType_answers (op : UnaryOp) (sign : String)
    (operand : ExprId) : Answers E n (signedType env op sign operand hint span) (Sound E n) := by
  unfold signedType
  split
  · refine (literalType_answers ..).bind fun ty hty => ?_
    exact (record_answers hty operand).seq fun _ => .pure hty
  · refine (visit_answers hhint operand).bind fun ty hty => ?_
    split
    · exact .pure hty
    · exact failing_answers .error _ span

lemma unaryType_answers (op : UnaryOp) (operand : ExprId) :
    Answers E n (unaryType env op operand hint span) (Sound E n) := by
  unfold unaryType
  cases op with
  | not => exact (visitOnly_answers operand).seq fun _ => .pure (.prim _)
  | minus | plus => exact signedType_answers hhint _ _ operand

omit hhint in
lemma arithmeticType_answers {left right : Ty} (hleft : left.Sound E n) (hright : right.Sound E n)
    (op : BinaryOp) : Answers E n (arithmeticType op left right span) (Sound E n) := by
  unfold arithmeticType
  split
  · rename_i herror
    exact .pure (.error ((Bool.or_eq_true_iff.mp herror).elim hleft.of_isError hright.of_isError))
  · split
    · exact .pure .unknown
    · split
      · split
        · exact .pure (.prim _)
        · exact failing_answers .error _ span
      · split
        · exact .pure hleft
        · exact failing_answers .error _ span

lemma operandTypes_answers (left right : ExprId) :
    Answers E n (operandTypes env left right hint) fun found =>
      found.1.Sound E n ∧ found.2.Sound E n := by
  unfold operandTypes
  split
  · refine (perform_answers .diagnosticCount trivial rfl).seq fun start => ?_
    refine (visit_answers hhint right).bind fun rightType hright => ?_
    refine (perform_answers .diagnosticCount trivial rfl).seq fun middle => ?_
    refine (visit_answers (hint_sound hright) left).bind fun leftType hleft => ?_
    exact (perform_answers (.hoist start middle) trivial rfl).seq fun _ => .pure ⟨hleft, hright⟩
  · refine (visit_answers hhint left).bind fun leftType hleft => ?_
    exact (visit_answers (hint_sound hleft) right).bind fun _ hright => .pure ⟨hleft, hright⟩

omit hhint in
lemma checkLogicalOperand_answers (op : BinaryOp) (side : ExprId) :
    Answers E n (checkLogicalOperand env op side) fun _ => True :=
  (visit_answers (hint_sound (.prim _)) side).seq fun _ => reportIf_answers ..

lemma binaryType_answers (op : BinaryOp) (left right : ExprId) :
    Answers E n (binaryType env op left right hint span) (Sound E n) := by
  cases op with
  | is =>
    refine (visit_answers noHint_sound left).seq fun _ => ?_
    refine (visit_answers noHint_sound right).seq fun _ => ?_
    exact (reportIf_answers ..).seq fun _ => (reportIf_answers ..).seq fun _ => .pure (.prim _)
  | and | or =>
    refine (checkLogicalOperand_answers _ left).seq fun _ => ?_
    exact (checkLogicalOperand_answers _ right).seq fun _ => .pure (.prim _)
  | equal | notEqual | greater | greaterEqual | less | lessEqual =>
    refine (operandTypes_answers noHint_sound left right).seq fun _ => ?_
    exact (reportIf_answers ..).seq fun _ => .pure (.prim _)
  | add | subtract | multiply | divide | modulo | bitOr =>
    refine (operandTypes_answers hhint left right).bind fun found hfound => ?_
    exact arithmeticType_answers hfound.1 hfound.2 _

end Operators

end Rule

lemma Ty.Sound.containerMember {container ty : Ty} {name : String}
    (h : container.Sound E n) (hty : container.containerMember? name = some ty) : ty.Sound E n := by
  have hnull {t : Ty} (ht : t.Sound E n) : (makeUnion [t, .null]).Sound E n :=
    .makeUnion (by simpa using ⟨ht, .prim _⟩) nofun
  unfold containerMember? at hty
  split at hty
  · rename_i element helement
    have hsound := h.arrayElement helement
    split at hty
    all_goals cases hty
    · exact .fn nofun (.prim _)
    · exact .fn (by simpa using hsound) (.prim _)
    · exact .fn nofun (hnull hsound)
    · exact .fn (by simpa using hsound) (.prim _)
  · split at hty
    · cases hty
    · rename_i key value hentry
      obtain ⟨hkey, hvalue⟩ := h.mapEntry hentry
      split at hty
      all_goals cases hty
      · exact .fn nofun (.prim _)
      · exact .fn (by simpa using hkey) (hnull hvalue)
      · exact .fn (by simpa using hkey) (hnull hvalue)
      · exact .fn (by simpa using ⟨hkey, hvalue⟩) (.prim _)
      · exact .fn (by simpa using hkey) (.prim _)
      · exact .fn nofun (.array hkey)
      · exact .fn nofun (.array hvalue)

def MemberLookup.Sound (E : Allowance) (n : Nat) : MemberLookup → Prop
  | .found ty method σ => ty.Sound E n ∧ (∀ id ∈ method, id.index < n) ∧ σ.Sound E n
  | .missing _ | .untracked => True

lemma Symbol.Sound.lookupMember {owner : Symbol} {args : Option (List Ty)} (h : owner.Sound E n)
    (hargs : ∀ types, args = some types → ∀ t ∈ types, t.Sound E n) (name : String) :
    (owner.lookupMember args name).Sound E n := by
  unfold Symbol.lookupMember
  split
  · trivial
  · split
    · rename_i m hm
      have hmember := h.members m (mem_of_find?_eq_some hm)
      have hσ : (Substitution.ofArgs owner.typeParams args).Sound E n := .ofArgs hargs
      exact ⟨hmember.ty.substitute hσ, hmember.method, hσ⟩
    · trivial

lemma Ty.Sound.lookupBuiltIn (h : object.Sound E n) (name : String) :
    (object.lookupBuiltIn name).Sound E n := by
  unfold Ty.lookupBuiltIn
  split
  · rename_i ty hty
    exact ⟨h.containerMember hty, nofun, .empty⟩
  · split <;> trivial

namespace Rule

section Access

lemma lookupMember_answers (h : object.Sound E n) (name : String) :
    Answers E n (lookupMember env object name) (MemberLookup.Sound E n) := by
  unfold lookupMember
  split
  · rename_i head args
    split
    · rename_i id hid
      refine (symbol_answers (h.symbol hid)).bind fun owner howner => .pure ?_
      refine howner.lookupMember (fun types htypes => ?_) name
      subst htypes
      exact h.inside
    · refine .pure ?_
      split
      · exact h.lookupBuiltIn name
      · trivial
  · exact .pure trivial

lemma memberType_answers (object : ExprId) (property : Ident) :
    Answers E n (memberType env object property) (Sound E n) := by
  refine (visit_answers noHint_sound object).bind fun objectType hobject => ?_
  refine (lookupMember_answers hobject property.name).bind fun found hfound => ?_
  cases found with
  | found ty method σ => exact .pure hfound.1
  | missing owner => exact failing_answers .error _ property.span
  | untracked => exact .pure .unknown

lemma elementType_answers (h : object.Sound E n) (position : ExprId) :
    Answers E n (elementType env object position) (Sound E n) := by
  unfold elementType
  split
  · rename_i elements digits hdigits
    split
    · rename_i ty hty
      obtain ⟨place, -, hplace⟩ := bind_eq_some_iff.mp hty
      exact .pure (h.inside ty (mem_of_getElem? hplace))
    · exact failing_answers .error _ _
  · refine .pure ?_
    split
    · rename_i herror
      exact .error (h.of_isError herror)
    · exact .unknown

lemma indexType_answers (object position : ExprId) :
    Answers E n (indexType env object position) (Sound E n) := by
  refine (visit_answers noHint_sound object).bind fun objectType hobject => ?_
  split
  · rename_i element helement
    refine (visit_answers noHint_sound position).seq fun _ => ?_
    exact (reportIf_answers ..).seq fun _ => .pure (hobject.arrayElement helement)
  · rename_i key value _ hentry
    obtain ⟨hkey, hvalue⟩ := hobject.mapEntry hentry
    refine (visit_answers (hint_sound hkey) position).seq fun _ => ?_
    exact (reportIf_answers ..).seq fun _ => .pure hvalue
  · exact (visitOnly_answers position).seq fun _ => elementType_answers hobject position

end Access

section Assignment

lemma nameTarget_answers (name : String) : Answers E n (nameTarget name span) (Sound E n) := by
  refine (lookupValue_answers name).bind fun found hfound => ?_
  cases found with
  | none => exact failing_answers .error _ span
  | some id =>
    refine (symbol_answers (hfound id rfl)).bind fun declared hdeclared => ?_
    exact (reportAny_answers ..).seq fun _ => .pure hdeclared.tyOrUnknown

lemma checkRoot_answers (target : ExprId) :
    Answers E n (checkRoot env target span) fun _ => True := by
  unfold checkRoot
  split
  · exact .pure trivial
  · rename_i root hroot
    refine (lookupValue_answers root).bind fun found hfound => ?_
    cases found with
    | none => exact .pure trivial
    | some id => exact (symbol_answers (hfound id rfl)).seq fun _ => reportAny_answers ..

lemma targetType_answers {asValue : Rule Ty} (h : Answers E n asValue (Sound E n))
    (target : ExprId) : Answers E n (targetType env target asValue) (Sound E n) := by
  unfold targetType
  split
  · exact nameTarget_answers _
  · exact h.bind fun ty hty => (checkRoot_answers target).seq fun _ => .pure hty
  · exact h.bind fun ty hty => (checkRoot_answers target).seq fun _ => .pure hty
  · exact visitTarget_answers _
  · exact h.bind fun ty hty => failing_answers (fun _ => hty) _ _

lemma assignedType_answers {target value : Ty} (htarget : target.Sound E n) (hvalue : value.Sound E n)
    (op : Option BinaryOp) : Answers E n (assignedType op target value span) (Sound E n) := by
  cases op with
  | none => exact .pure hvalue
  | some op => exact arithmeticType_answers htarget hvalue op

lemma assignmentType_answers (op : Option BinaryOp) (target value : ExprId) :
    Answers E n (assignmentType env op target value span) (Sound E n) := by
  refine (visitTarget_answers target).bind fun declared hdeclared => ?_
  refine (visit_answers (hint_sound hdeclared) value).bind fun valueType hvalue => ?_
  refine (assignedType_answers hdeclared hvalue op).seq fun assigned => ?_
  refine (reportIf_answers ..).seq fun _ => ?_
  refine .seq (A := fun _ => True) ?_ fun _ => .pure hdeclared
  unfold endNarrowing
  split
  · exact perform_answers _ trivial rfl
  · exact .pure trivial

end Assignment

section Aggregate

lemma checkFields_answers {declared : List Member} (h : ∀ m ∈ declared, m.Sound E n)
    (recordName : String) (seen : List String) (fields : List FieldInit) :
    Answers E n (checkFields env recordName declared seen fields) fun _ => True := by
  fun_induction checkFields env recordName declared seen fields with
  | case1 seen => exact .pure trivial
  | case2 _ _ _ _ ih | case3 _ _ _ _ _ _ ih =>
    exact (report_answers ..).seq fun _ => (visitOnly_answers _).seq fun _ => ih
  | case4 seen field rest m hm hseen ih =>
    have hty := (h m (mem_of_find?_eq_some hm)).ty
    refine (visit_answers (hint_sound hty) field.value).seq fun _ => ?_
    exact (reportIf_answers ..).seq fun _ => ih

lemma visitFields_answers (fields : List FieldInit) :
    Answers E n (visitFields fields) fun _ => True :=
  .forM fun field _ => visitOnly_answers field.value

lemma recordType_answers (name : Ident) (fields : List FieldInit) :
    Answers E n (recordType env name fields) (Sound E n) := by
  refine (lookupType_answers name.name).bind fun found hfound => ?_
  cases found with
  | none =>
    exact (report_answers ..).bind fun _ hE => (visitFields_answers fields).seq fun _ => .pure (.error hE)
  | some id =>
    refine (symbol_answers (hfound id rfl)).bind fun declared hdeclared => ?_
    split
    · refine (report_answers ..).bind fun _ hE => ?_
      exact (visitFields_answers fields).seq fun _ => .pure (.error hE)
    · have hexpected : ∀ m ∈ declared.members.filter (·.method.isNone), m.Sound E n :=
        fun m hm => hdeclared.members m (mem_of_mem_filter hm)
      refine (checkFields_answers hexpected name.name [] fields).seq fun seen => ?_
      refine (Answers.forM fun m _ => reportIf_answers ..).seq fun _ => .pure (.named ?_ nofun)
      rintro _ ⟨⟩
      exact hfound id rfl

lemma arrayType_answers (h : ∀ t ∈ hint, t.Sound E n) (elements : List ExprId) :
    Answers E n (arrayType elements hint) (Sound E n) := by
  have helement : ∀ t ∈ hint.bind arrayElement?, t.Sound E n := by
    intro t ht
    obtain ⟨array, harray, ht⟩ := bind_eq_some_iff.mp ht
    exact (h array harray).arrayElement ht
  refine (Answers.mapM fun id _ => visit_answers helement id).bind fun types htypes => ?_
  refine .pure (.array ?_)
  split
  · exact .getD helement
  · rename_i hne
    exact .makeUnion htypes.1 fun hnil => (hne (isEmpty_iff.mpr hnil)).elim

lemma mapType_answers (h : ∀ t ∈ hint, t.Sound E n) (entries : List MapEntry) :
    Answers E n (mapType entries hint) (Sound E n) := by
  have hentry : ∀ entry ∈ hint.bind mapEntry?, entry.1.Sound E n ∧ entry.2.Sound E n := by
    intro entry hentry
    obtain ⟨map, hmap, hentry⟩ := bind_eq_some_iff.mp hentry
    exact (h map hmap).mapEntry hentry
  have hkey : ∀ t ∈ (hint.bind mapEntry?).map (·.1), t.Sound E n := by
    intro t ht
    obtain ⟨entry, he, rfl⟩ := map_eq_some_iff.mp ht
    exact (hentry entry he).1
  have hvalue : ∀ t ∈ (hint.bind mapEntry?).map (·.2), t.Sound E n := by
    intro t ht
    obtain ⟨entry, he, rfl⟩ := map_eq_some_iff.mp ht
    exact (hentry entry he).2
  have htypes : Answers E n (entryTypes _ _ entries) fun types =>
      (∀ pair ∈ types, pair.1.Sound E n ∧ pair.2.Sound E n) ∧ (types = [] → entries = []) :=
    .mapM fun entry _ => (visit_answers hkey entry.key).bind fun key hk =>
      (visit_answers hvalue entry.value).bind fun value hv => .pure ⟨hk, hv⟩
  refine htypes.bind fun types ⟨htypes, _⟩ => ?_
  split
  · exact .pure (.map (.getD hkey) (.getD hvalue))
  · rename_i hne
    have hnil {f : Ty × Ty → Ty} (hmap : types.map f = []) : E.errors :=
      (hne (isEmpty_iff.mpr (map_eq_nil_iff.mp hmap))).elim
    refine .pure (.map (.makeUnion ?_ hnil) (.makeUnion ?_ hnil))
    · exact forall_mem_map.mpr fun pair hpair => (htypes pair hpair).1
    · exact forall_mem_map.mpr fun pair hpair => (htypes pair hpair).2

lemma elementTypes_answers {hints : List Ty} (h : ∀ t ∈ hints, t.Sound E n) (elements : List ExprId) :
    Answers E n (elementTypes hints elements) fun types => ∀ t ∈ types, t.Sound E n := by
  induction elements generalizing hints with
  | nil => exact .pure nofun
  | cons element rest ih =>
    have hhead : ∀ t ∈ hints.head?, t.Sound E n := fun t ht => h t (mem_of_mem_head? ht)
    refine (visit_answers hhead element).bind fun ty hty => ?_
    refine (ih fun t ht => h t (mem_of_mem_tail ht)).bind fun types htypes => .pure ?_
    exact forall_mem_cons.mpr ⟨hty, htypes⟩

lemma tupleType_answers (h : ∀ t ∈ hint, t.Sound E n) (elements : List ExprId) :
    Answers E n (tupleType elements hint) (Sound E n) := by
  refine (elementTypes_answers ?_ elements).bind fun types htypes => .pure (.tuple htypes)
  split
  · exact (h _ rfl).inside
  · exact nofun

lemma castType_answers (value : ExprId) {target : TypeExpr} (h : ¬E.errors → target.Full) :
    Answers E n (castType value target span) (Sound E n) := by
  refine (visit_answers noHint_sound value).seq fun source => ?_
  refine (resolveType_answers h).bind fun ty hty => ?_
  exact (reportIf_answers ..).seq fun _ => .pure hty

end Aggregate

end Rule

end StaticTyping
