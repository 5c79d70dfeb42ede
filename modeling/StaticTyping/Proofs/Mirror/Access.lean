import StaticTyping.Proofs.Mirror.Operator

/-! Members, elements, written-out containers and assignments side by side. -/

namespace StaticTyping

open Ty List Option Finding

variable {r s : String} {x y : Symbol} {fields : List FieldInit} {full : Prop} {elements : List ExprId}

inductive MemberLookup.Mirrors (m : Mirror) : MemberLookup → MemberLookup → Prop
  | found {a b : Ty} {i j : Option SymbolId} {σ τ : Substitution} (hty : a.Mirrors m b)
      (hmethod : Option.Rel m.symbols i j) (hσ : σ.Mirrors m τ) :
      Mirrors m (.found a i σ) (.found b j τ)
  | missing {x y : MemberOwner} (h : m.exact → x.text = y.text) :
      Mirrors m (.missing x) (.missing y)
  | untracked : Mirrors m .untracked .untracked

namespace Mirror

open Rule

variable {m : Mirror} {env env' : Env} (T : Twins m env env') {v w : Visits}
  {E : TypeExpr → TypeExpr → Prop} {c : Names} {cs : List Names} {id target value : ExprId}
  {hint hint' : Option Ty} {a b a' b' : Ty}

lemma member?_mirrors (hxy : x.Mirrors m E full y) (hfull : full) (name : String) :
    Rel (Member.Mirrors m) (x.member? name) (y.member? name) :=
  forall₂_find? (hxy.members hfull) fun _ _ h => by rw [h.name]

lemma symbolLookup_mirrors (hxy : x.Mirrors m E full y) (hfull : full) {xs ys : Option (List Ty)}
    (hargs : Rel (Forall₂ (Mirrors m)) xs ys) (name : String) :
    MemberLookup.Mirrors m (x.lookupMember xs name) (y.lookupMember ys name) := by
  have hrecord : x.isRecord = y.isRecord := by simp only [Symbol.isRecord, hxy.kind]
  have hσ := Substitution.Mirrors.ofArgs hxy.typeParams hargs
  simp only [Symbol.lookupMember, hrecord]
  split
  · exact .untracked
  · refine rel_elim (member?_mirrors hxy hfull name) (.missing fun h => ?_) fun f g hfg =>
      .found (hfg.ty.substitute hσ) hfg.method hσ
    rw [hxy.kind, hxy.exactName h]

lemma builtInLookup_mirrors (hab : a.Mirrors m b) (name : String) :
    MemberLookup.Mirrors m (a.lookupBuiltIn name) (b.lookupBuiltIn name) := by
  simp only [lookupBuiltIn, hab.isNamed]
  refine rel_elim (hab.containerMember? name) ?_ fun _ _ hxy => .found hxy .none .empty
  dsimp only
  split
  · exact .missing fun h => Text.same h hab
  · exact .untracked

include T in
lemma lookupMember_agrees (hab : a.Mirrors m b) (name : String) :
    m.Rules v w E cs (lookupMember env a name) (lookupMember env' b name)
      (MemberLookup.Mirrors m) := by
  have hdeclared : ∀ {i j : SymbolId} {xs ys : Option (List Ty)}, m.symbols i j →
      Rel (Forall₂ (Mirrors m)) xs ys →
      m.Rules v w E cs (symbol i >>= fun owner => pure (owner.lookupMember xs name))
        (symbol j >>= fun owner => pure (owner.lookupMember ys name))
        (MemberLookup.Mirrors m) := fun hij hargs =>
    .andPure (symbol_agrees hij) fun _ _ hxy =>
      symbolLookup_mirrors hxy (T.full _) hargs name
  have hbuiltIn : MemberLookup.Mirrors m
      (if env.options.validateContainerMembers then a.lookupBuiltIn name else .untracked)
      (if env'.options.validateContainerMembers then b.lookupBuiltIn name else .untracked) := by
    rw [T.options.containers]
    split
    · exact builtInLookup_mirrors hab name
    · exact .untracked
  cases hab with
  | bare hsymbol =>
    cases hsymbol with
    | none => exact .pure hbuiltIn
    | some hij => exact hdeclared hij .none
  | named hsymbol hargs =>
    cases hsymbol with
    | none => exact .pure hbuiltIn
    | some hij => exact hdeclared hij (.some hargs)
  | _ => exact .pure .untracked

lemma unknownMember_agrees {x y : MemberOwner} (h : m.exact → x.text = y.text) (name : String)
    (span : Span) : m.Rules v w E cs (report (.unknownMember x name) span)
      (report (.unknownMember y name) span) Both :=
  report_agrees span rfl rfl fun hexact => by
    unfold message
    simp only [h hexact]

lemma mismatch_agrees (place : Place) (ha : a.Mirrors m a') (hb : b.Mirrors m b') (span : Span) :
    m.Rules v w E cs (reportIf (!a.assignable b) (.mismatch place b a) span)
      (reportIf (!a'.assignable b') (.mismatch place b' a') span) Both :=
  reportIf_agrees span (by rw [ha.assignable_eq hb]) rfl rfl fun h => by
    unfold message
    simp only [Text.same h ha, Text.same h hb]

section Visits

variable (hvisit : m.VisitsAlike v w (m.States E (c :: cs)) (T.exprs c))

include hvisit

lemma memberType_agrees (hid : T.exprs c id) (property : Ident) :
    m.Rules v w E (c :: cs) (memberType env id property)
      (memberType env' id property) (Mirrors m) := by
  refine .bind (hvisit.value hid .none) fun x y hxy => ?_
  refine .bind (lookupMember_agrees T hxy property.name) fun found found' hfound => ?_
  cases hfound with
  | found hty _ _ => exact .pure hty
  | missing h =>
    exact .andThen (unknownMember_agrees h property.name property.span) fun _ _ =>
      .pure .error
  | untracked => exact .pure .unknown

omit hvisit in
include T in
lemma elementType_agrees (hab : a.Mirrors m b) (id : ExprId) :
    m.Rules v w E cs (elementType env a id) (elementType env' b id) (Mirrors m) := by
  have hother : (if a.isError then error else .unknown).Mirrors m
      (if b.isError then .error else .unknown) := by
    rw [hab.isError]
    split
    · exact .error
    · exact .unknown
  unfold elementType
  rw [T.span id]
  cases hab with
  | @tuple xs ys h =>
    refine T.kind_elim id (fun _ _ _ => .pure hother) (fun _ _ _ => .pure hother) fun kind _ => ?_
    cases kind with
    | literal literal =>
      cases literal with
      | int digits =>
        have hfound : Rel (Mirrors m) (tupleElement? xs digits) (tupleElement? ys digits) := by
          unfold tupleElement?
          cases (Numeral.magnitude? digits).filter (· < Nat.pow 2 64) with
          | none => exact .none
          | some n => exact forall₂_getElem? h n
        dsimp only
        refine rel_elim hfound (.andThen (report_agrees _ rfl rfl fun hm => ?_) fun _ _ => .pure .error)
          fun _ _ hxy => .pure hxy
        unfold message
        simp only [Text.same hm (.tuple h)]
      | _ => exact .pure hother
    | _ => exact .pure hother
  | _ => exact .pure hother

lemma indexType_agrees (hid : T.exprs c id) (hvalue : T.exprs c value) :
    m.Rules v w E (c :: cs) (indexType env id value) (indexType env' id value) (Mirrors m) := by
  refine .bind (hvisit.value hid .none) fun x y hxy => ?_
  refine rel_elim hxy.arrayElement? ?_ fun e f hef => ?_
  · refine rel_elim hxy.mapEntry? ?_ fun x y hxy => ?_
    · exact .andThen (hvisit.only hvalue) fun _ _ => elementType_agrees T hxy value
    · refine .bind (hvisit.value hvalue (.some hxy.1)) fun p q hpq => ?_
      rw [T.span value]
      exact .andThen (mismatch_agrees .mapKey hpq hxy.1 _) fun _ _ => .pure hxy.2
  · refine .bind (hvisit.value hvalue .none) fun p q hpq => ?_
    rw [T.span value]
    refine .andThen (reportIf_agrees _ ?_ rfl rfl fun h => ?_) fun _ _ => .pure hef
    · rw [hpq.isAbsorbing, hpq.isInteger]
    · unfold message
      simp only [Text.same h hpq]

lemma checkFields_agrees (hrs : m.exact → r = s) {xs ys : List Member}
    (hxs : Forall₂ (Member.Mirrors m) xs ys) (seen : List String)
    (hfields : ∀ field ∈ fields, T.exprs c field.value) :
    m.Rules v w E (c :: cs) (checkFields env r xs seen fields)
      (checkFields env' s ys seen fields) (· = ·) := by
  induction fields generalizing seen with
  | nil => exact .pure rfl
  | cons field rest ih =>
    obtain ⟨hfield, hrest⟩ := forall_mem_cons.mp hfields
    have hfound : Rel (Member.Mirrors m) (xs.find? (·.name == field.name.name))
        (ys.find? (·.name == field.name.name)) := forall₂_find? hxs fun _ _ h => by rw [h.name]
    unfold checkFields
    refine rel_elim hfound ?_ fun f g hfg => ?_
    · refine .andThen (report_agrees _ rfl rfl fun h => by rw [hrs h]) fun _ _ => ?_
      exact .andThen (hvisit.only hfield) fun _ _ => ih seen hrest
    · dsimp only
      rw [← hfg.name]
      split
      · refine .andThen (reportSame_agrees _ rfl) fun _ _ => ?_
        exact .andThen (hvisit.only hfield) fun _ _ => ih seen hrest
      · refine .bind (hvisit.value hfield (.some hfg.ty)) fun p q hpq => ?_
        rw [T.span field.value]
        exact .andThen (mismatch_agrees _ hpq hfg.ty _) fun _ _ => ih _ hrest

omit hvisit in
lemma reportMissingFields_agrees {span : Span} (hrs : m.exact → r = s) {xs ys : List Member}
    (hxs : Forall₂ (Member.Mirrors m) xs ys) (seen : List String) :
    m.Rules v w E cs (reportMissingFields ⟨r, span⟩ xs seen)
      (reportMissingFields ⟨s, span⟩ ys seen) Both := by
  refine .forM hxs fun f g hfg => ?_
  rw [hfg.name]
  exact reportIf_agrees span rfl rfl rfl fun h => by rw [hrs h]

lemma recordType_agrees (hc : m.Context c) (hrs : c r s) (span : Span)
    (hfields : ∀ field ∈ fields, T.exprs c field.value) :
    m.Rules v w E (c :: cs) (recordType env ⟨r, span⟩ fields)
      (recordType env' ⟨s, span⟩ fields) (Mirrors m) := by
  have hsame : m.exact → r = s := fun h => hc.exact h hrs
  refine lookupType_agrees hrs ?_ fun i j x y hij hxy hparam hother => ?_
  · refine .andThen (report_agrees _ rfl rfl fun h => by rw [hsame h]) fun _ _ => ?_
    exact .andThen (hvisit.each hfields) fun _ _ => .pure .error
  · dsimp only
    rw [← hxy.kind]
    by_cases hkind : x.kind = .structType
    · have hfields' : Forall₂ (Member.Mirrors m)
          (x.members.filter (·.method.isNone)) (y.members.filter (·.method.isNone)) := by
        refine rel_filter (fun f g hfg => ?_) (hxy.members (T.full i))
        simp only [isNone_iff_eq_none]
        exact rel_elim hfg.method Iff.rfl (by simp)
      rw [if_neg (by simp [hkind]), if_neg (by simp [hkind])]
      refine .bind (checkFields_agrees T hvisit hsame hfields' [] hfields) ?_
      rintro seen _ rfl
      refine .andThen (reportMissingFields_agrees hsame hfields' seen) fun _ _ => ?_
      obtain rfl := hother (by simp [hkind])
      exact .pure (.bareType (.some hij) r)
    · rw [if_pos (by simpa using hkind), if_pos (by simpa using hkind)]
      refine .andThen (report_agrees _ rfl rfl fun h => by rw [hsame h]) fun _ _ => ?_
      exact .andThen (hvisit.each hfields) fun _ _ => .pure .error

lemma arrayType_agrees (helements : ∀ e ∈ elements, T.exprs c e)
    (hhint : Rel (Mirrors m) hint hint') :
    m.Rules v w E (c :: cs) (arrayType elements hint) (arrayType elements hint') (Mirrors m) := by
  have helement : Rel (Mirrors m) (hint.bind arrayElement?)
      (hint'.bind arrayElement?) := rel_bind hhint fun _ _ h => h.arrayElement?
  refine .bind (.mapM (pairedSelf elements) (V := Mirrors m) ?_) ?_
  · rintro e _ ⟨rfl, he⟩
    exact hvisit.value (helements e he) helement
  · intro xs ys hxs
    refine .pure (.array ?_)
    rw [forall₂_isEmpty hxs]
    split
    · exact rel_getD helement .unknown
    · exact .makeUnion hxs

lemma mapType_agrees {entries : List MapEntry}
    (hentries : ∀ entry ∈ entries, T.exprs c entry.key ∧ T.exprs c entry.value)
    (hhint : Rel (Mirrors m) hint hint') :
    m.Rules v w E (c :: cs) (mapType entries hint) (mapType entries hint') (Mirrors m) := by
  have hentry : Rel (fun x y => x.1.Mirrors m y.1 ∧ x.2.Mirrors m y.2)
      (hint.bind mapEntry?) (hint'.bind mapEntry?) := rel_bind hhint fun _ _ h => h.mapEntry?
  have hkey : Rel (Mirrors m) ((hint.bind mapEntry?).map (·.1))
      ((hint'.bind mapEntry?).map (·.1)) := rel_elim hentry .none fun _ _ h => .some h.1
  have hvalue : Rel (Mirrors m) ((hint.bind mapEntry?).map (·.2))
      ((hint'.bind mapEntry?).map (·.2)) := rel_elim hentry .none fun _ _ h => .some h.2
  have htypes : m.Rules v w E (c :: cs)
      (entryTypes ((hint.bind mapEntry?).map (·.1)) ((hint.bind mapEntry?).map (·.2)) entries)
      (entryTypes ((hint'.bind mapEntry?).map (·.1)) ((hint'.bind mapEntry?).map (·.2)) entries)
      (Forall₂ fun x y => x.1.Mirrors m y.1 ∧ x.2.Mirrors m y.2) := by
    refine .mapM (pairedSelf entries) ?_
    rintro entry _ ⟨rfl, hmem⟩
    obtain ⟨hk, hv⟩ := hentries entry hmem
    refine .bind (hvisit.value hk hkey) fun x y hxy => ?_
    exact .andPure (hvisit.value hv hvalue) fun _ _ h => ⟨hxy, h⟩
  refine .bind htypes fun xs ys hxs => ?_
  rw [forall₂_isEmpty hxs]
  split
  · exact .pure (.map (rel_getD hkey .unknown) (rel_getD hvalue .unknown))
  · exact .pure (.map (.makeUnion (rel_map (fun _ _ h => h.1) hxs))
      (.makeUnion (rel_map (fun _ _ h => h.2) hxs)))

lemma elementTypes_agrees (helements : ∀ e ∈ elements, T.exprs c e) {xs ys : List Ty}
    (hxs : Forall₂ (Mirrors m) xs ys) : m.Rules v w E (c :: cs) (elementTypes xs elements)
      (elementTypes ys elements) (Forall₂ (Mirrors m)) := by
  induction elements generalizing xs ys with
  | nil => exact .pure .nil
  | cons e rest ih =>
    obtain ⟨he, hrest⟩ := forall_mem_cons.mp helements
    have hhead : Rel (Mirrors m) xs.head? ys.head? := hxs.casesOn .none fun h _ => .some h
    have htail : Forall₂ (Mirrors m) xs.tail ys.tail := hxs.casesOn .nil fun _ h => h
    refine .bind (hvisit.value he hhead) fun x y hxy => ?_
    exact .andPure (ih hrest htail) fun _ _ h => .cons hxy h

lemma tupleType_agrees (helements : ∀ e ∈ elements, T.exprs c e)
    (hhint : Rel (Mirrors m) hint hint') :
    m.Rules v w E (c :: cs) (tupleType elements hint) (tupleType elements hint') (Mirrors m) := by
  have hplain : m.Rules v w E (c :: cs) (elementTypes [] elements)
      (elementTypes [] elements) (Forall₂ (Mirrors m)) :=
    elementTypes_agrees T hvisit helements .nil
  cases hhint with
  | none => exact .andPure hplain fun _ _ h => .tuple h
  | some hty =>
    cases hty with
    | tuple h => exact .andPure (elementTypes_agrees T hvisit helements h) fun _ _ h => .tuple h
    | _ => exact .andPure hplain fun _ _ h => .tuple h

lemma castType_agrees (hc : m.Context c) (hexpand : m.Expands v w (m.States E (c :: cs)) [])
    (hvalue : T.exprs c value) {t u : TypeExpr} (htu : t.Mirrors m c u) (span : Span) :
    m.Rules v w E (c :: cs) (castType value t span) (castType value u span) (Mirrors m) := by
  refine .bind (hvisit.value hvalue .none) fun x y hxy => ?_
  refine .bind (resolveType_agrees hc hexpand htu) fun p q hpq => ?_
  refine .andThen (reportIf_agrees span ?_ rfl rfl fun h => ?_) fun _ _ => .pure hpq
  · rw [hxy.castable hpq]
  · unfold message
    simp only [Text.same h hxy, Text.same h hpq]

end Visits

section Assignment

def Reads (m : Mirror) (f g : Finding) : Prop :=
  f.code = g.code ∧ f.isOrdinary = true ∧ (m.exact → f.message = g.message)

lemma reportAny_agrees {f g : Option Finding} (span : Span) (h : Rel m.Reads f g) :
    m.Rules v w E cs (reportAny f span) (reportAny g span) Both := by
  cases h with
  | none => exact .pure trivial
  | some h => exact report_agrees span h.1 h.2.1 h.2.2

lemma mutationFinding?_mirrors (hxy : x.Mirrors m E full y) :
    Rel m.Reads x.mutationFinding? y.mutationFinding? := by
  simp only [Symbol.mutationFinding?, hxy.isConst, hxy.isParameter, hxy.isMutable]
  split
  · exact .some ⟨rfl, rfl, fun h => by rw [hxy.exactName h]⟩
  · split
    · exact .some ⟨rfl, rfl, fun h => by rw [hxy.exactName h]⟩
    · exact .none

lemma assignmentFinding?_mirrors (hxy : x.Mirrors m E full y) (name : String) :
    Rel m.Reads (x.assignmentFinding? name) (y.assignmentFinding? name) := by
  have hmutation := mutationFinding?_mirrors hxy
  unfold Symbol.assignmentFinding?
  rw [← hxy.kind]
  cases x.kind with
  | function | variant => exact .some ⟨rfl, rfl, fun _ => rfl⟩
  | _ => exact hmutation

include T

omit T in
lemma nameTarget_agrees {name : String} (hname : m.values name) (span : Span) :
    m.Rules v w E cs (nameTarget name span) (nameTarget name span) (Mirrors m) := by
  refine .bind (lookupValue_agrees hname) fun x y hxy => ?_
  cases hxy with
  | none => exact .andThen (reportSame_agrees span rfl) fun _ _ => .pure .error
  | some hij =>
    refine .bind (symbol_agrees hij) fun x y hxy => ?_
    exact .andThen (reportAny_agrees span (assignmentFinding?_mirrors hxy name)) fun _ _ =>
      .pure (rel_getD hxy.ty .unknown)

lemma checkRoot_agrees (hid : T.exprs c id) (span : Span) :
    m.Rules v w E cs (checkRoot env id span) (checkRoot env' id span) Both := by
  unfold checkRoot
  rw [← T.alike.rootName?]
  cases hroot : env.program.rootName? id with
  | none => exact .pure trivial
  | some root =>
    refine .bind (lookupValue_agrees (T.rootName hid hroot)) fun x y hxy => ?_
    cases hxy with
    | none => exact .pure trivial
    | some hij =>
      refine .bind (symbol_agrees hij) fun x y hxy => ?_
      exact reportAny_agrees span (mutationFinding?_mirrors hxy)

lemma endNarrowing_agrees (id : ExprId) :
    m.Rules v w E cs (endNarrowing env id) (endNarrowing env' id) Both := by
  unfold endNarrowing
  refine T.kind_elim id (fun _ _ _ => .pure trivial) (fun _ _ _ => .pure trivial) fun kind _ => ?_
  cases kind with
  | name name => exact clearNarrowing_agrees name
  | _ => exact .pure trivial

variable (hvisit : m.VisitsAlike v w (m.States E (c :: cs)) (T.exprs c))

include hvisit

lemma targetType_agrees (hid : T.exprs c id) {x y : Rule Ty}
    (hxy : m.Rules v w E (c :: cs) x y (Mirrors m)) :
    m.Rules v w E (c :: cs) (targetType env id x) (targetType env' id y) (Mirrors m) := by
  have hother : ∀ span, m.Rules v w E (c :: cs)
      (x >>= fun ty => report .invalidAssignmentTarget span >>= fun _ => pure ty)
      (y >>= fun ty => report .invalidAssignmentTarget span >>= fun _ => pure ty)
      (Mirrors m) := fun span =>
    .bind hxy fun _ _ h =>
      .andThen (reportSame_agrees span rfl) fun _ _ => .pure h
  have hpath : ∀ span, m.Rules v w E (c :: cs)
      (x >>= fun ty => checkRoot env id span >>= fun _ => pure ty)
      (y >>= fun ty => checkRoot env' id span >>= fun _ => pure ty)
      (Mirrors m) := fun span =>
    .bind hxy fun _ _ h =>
      .andThen (checkRoot_agrees T hid span) fun _ _ => .pure h
  unfold targetType
  rw [T.span id]
  refine T.kind_elim id (fun _ _ _ => hother _) (fun _ _ _ => hother _) fun kind hkind => ?_
  cases kind with
  | name name => exact nameTarget_agrees (T.named hid hkind) _
  | member | index => exact hpath _
  | group inner => exact hvisit.visit (T.part hid hkind (.head _)) .target
  | _ => exact hother _

lemma assignmentType_agrees (op : Option BinaryOp) (htarget : T.exprs c target)
    (hvalue : T.exprs c value) (span : Span) :
    m.Rules v w E (c :: cs) (assignmentType env op target value span)
      (assignmentType env' op target value span) (Mirrors m) := by
  refine .bind (hvisit.visit htarget .target) fun x y hxy => ?_
  refine .bind (hvisit.value hvalue (.some hxy)) fun p q hpq => ?_
  have hassigned : m.Rules v w E (c :: cs) (assignedType op x p span)
      (assignedType op y q span) (Mirrors m) := by
    cases op with
    | none => exact .pure hpq
    | some op => exact arithmeticType_agrees op hxy hpq span
  refine .bind hassigned fun f g hfg => ?_
  rw [T.span value]
  refine .andThen (mismatch_agrees .assignment hfg hxy _) fun _ _ => ?_
  exact .andThen (endNarrowing_agrees T target) fun _ _ => .pure hxy

end Assignment

end Mirror

end StaticTyping
