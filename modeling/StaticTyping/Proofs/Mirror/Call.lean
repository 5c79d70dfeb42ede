import StaticTyping.Proofs.Mirror.Callee

/-! Calls side by side. The signatures have the same parameters, and so the arguments are bound to the
same ones. -/

namespace StaticTyping

open Binding List Finding

variable {value : ExprId} {a' : Ty} {args : List Argument} {a b : Ty} {entries : List MapEntry}
  {m : Mirror}

/-- The same argument, among expressions as `B` says, or elements of tuples that mirror each other. -/
inductive Supplied.Mirrors (m : Mirror) (B : ExprId → Prop) : Supplied → Supplied → Prop
  | expr {value : ExprId} (h : B value) : Mirrors m B (.expr value) (.expr value)
  | element {a b : Ty} (h : a.Mirrors m b) (span : Span) :
      Mirrors m B (.element a span) (.element b span)

structure Binding.Mirrors (m : Mirror) (a b : Binding) : Prop where
  free : List.Forall₂ (ParamInfo.Mirrors m) a.free b.free
  supplied : a.supplied = b.supplied
  anyFilled : a.anyFilled = b.anyFilled

namespace ParamInfo.Mirrors

variable {m : Pairing} {a b : ParamInfo}

lemma restElement (h : a.Mirrors m b) : a.restElement.Mirrors m b.restElement :=
  rel_getD h.ty.arrayElement? .unknown

lemma restValue (h : a.Mirrors m b) : a.restValue.Mirrors m b.restValue := by
  unfold ParamInfo.restValue
  exact rel_elim h.ty.mapEntry? .unknown fun _ _ hxy => hxy.2

lemma isRequired (h : a.Mirrors m b) : a.isRequired = b.isRequired := by
  rw [ParamInfo.isRequired, ParamInfo.isRequired, ParamInfo.isOrdinary, ParamInfo.isOrdinary, h.role,
    h.hasDefault]

end ParamInfo.Mirrors

lemma Binding.Mirrors.supply {a b : Binding} (h : a.Mirrors m b) (name : String) :
    (a.supply name).Mirrors m (b.supply name) :=
  ⟨h.free, congrArg (name :: ·) h.supplied, h.anyFilled⟩

lemma Binding.Mirrors.fillAny {a b : Binding} (h : a.Mirrors m b) : a.fillAny.Mirrors m b.fillAny :=
  ⟨h.free, h.supplied, rfl⟩

namespace Mirror

open Rule

variable {m : Mirror} {env env' : Env} (T : Twins m env env') {v w : Visits}
  {E : TypeExpr → TypeExpr → Prop} {c : Names} {cs : List Names} {arg : Argument}

section Bound

variable {f g : Signature} {p q : ParamInfo} {x y : Supplied} {b d : Binding}

include T in
lemma suppliedSpan_eq (hxy : x.Mirrors m (T.exprs c) y) : x.span env = y.span env' := by
  cases hxy with
  | expr => exact T.span _
  | element => rfl

lemma isMutableVariable_agrees (hxy : x.Mirrors m (T.exprs c) y) :
    m.Rules v w E cs (isMutableVariable env x) (isMutableVariable env' y) (· = ·) := by
  cases hxy with
  | element => exact .pure rfl
  | @expr value hvalue =>
    unfold isMutableVariable
    dsimp only
    refine T.kind_elim value (fun _ _ _ => .pure rfl) (fun _ _ _ => .pure rfl) fun kind hkind => ?_
    cases kind with
    | name name =>
      refine .bind (lookupValue_agrees (T.named hvalue hkind)) fun found found' hfound => ?_
      cases hfound with
      | none => exact .pure rfl
      | some hij =>
        refine .andPure (symbol_agrees hij) fun x y hxy => ?_
        rw [hxy.kind, hxy.isMutable, hxy.isConst]
    | _ => exact .pure rfl

lemma checkMutable_agrees (hpq : p.Mirrors m q) (hxy : x.Mirrors m (T.exprs c) y) :
    m.Rules v w E cs (checkMutable env p x) (checkMutable env' q y) Both := by
  unfold checkMutable
  rw [hpq.isMutable]
  split
  · refine .bind (isMutableVariable_agrees T hxy) ?_
    rintro mutable _ rfl
    rw [hpq.name, suppliedSpan_eq T hxy]
    exact reportIf_agrees _ rfl rfl rfl fun _ => rfl
  · exact .pure trivial

lemma checkRestValue_agrees (hsig : f.Mirrors m g) (ha : a.Mirrors m a') (span : Span) :
    m.Rules v w E cs (checkRestValue f a span) (checkRestValue g a' span) Both := by
  unfold checkRestValue
  refine rel_elim hsig.kwVariadic? (.pure trivial) fun p q hpq => ?_
  dsimp only
  rw [hpq.name]
  exact mismatch_agrees _ ha hpq.restValue span

lemma checkSpreadKey_agrees (ha : a.Mirrors m a') (span : Span) :
    m.Rules v w E cs (checkSpreadKey a span) (checkSpreadKey a' span) Both := by
  refine reportIf_agrees span (by rw [ha.isString, ha.isAbsorbing]) rfl rfl fun h => ?_
  unfold message
  simp only [Text.same h ha]

lemma bindKeywordSpread_agrees (hsig : f.Mirrors m g) (hbd : b.Mirrors m d) (ha : a.Mirrors m a')
    (span : Span) : m.Rules v w E cs (bindKeywordSpread f b a span)
      (bindKeywordSpread g d a' span) (Mirrors m) := by
  unfold bindKeywordSpread
  rw [ha.isAbsorbing]
  split
  · exact .pure hbd.fillAny
  · refine rel_elim ha.mapEntry? ?_ fun _ _ hentry => ?_
    · refine .andThen (report_agrees span rfl rfl fun h => ?_) fun _ _ => .pure hbd
      unfold message
      simp only [Text.same h ha]
    · refine .andThen (checkSpreadKey_agrees hentry.1 span) fun _ _ => ?_
      exact .andThen (checkRestValue_agrees hsig hentry.2 span) fun _ _ => .pure hbd.fillAny

variable (hvisit : m.VisitsAlike v w (m.States E (c :: cs)) (T.exprs c))

include hvisit

lemma suppliedType_agrees {hint hint' : Option Ty}
    (hhint : Option.Rel (Ty.Mirrors m) hint hint') (hxy : x.Mirrors m (T.exprs c) y) :
    m.Rules v w E (c :: cs) (suppliedType hint x) (suppliedType hint' y) (Ty.Mirrors m) := by
  cases hxy with
  | expr h => exact hvisit.value h hhint
  | element h => exact .pure h

lemma checkSupplied_agrees (hpq : p.Mirrors m q) (ha : a.Mirrors m a')
    (hxy : x.Mirrors m (T.exprs c) y) : m.Rules v w E (c :: cs) (checkSupplied env p a x)
      (checkSupplied env' q a' y) (Ty.Mirrors m) := by
  refine .bind (suppliedType_agrees T hvisit (.some ha) hxy) fun found found' hfound => ?_
  rw [hpq.name, suppliedSpan_eq T hxy]
  refine .andThen (mismatch_agrees _ hfound ha _) fun _ _ => ?_
  exact .andThen (checkMutable_agrees T hpq hxy) fun _ _ => .pure hfound

variable (hsig : f.Mirrors m g)

include hsig

lemma bindNext_agrees (hbd : b.Mirrors m d) (hxy : x.Mirrors m (T.exprs c) y) :
    m.Rules v w E (c :: cs) (bindNext env f b x) (bindNext env' g d y)
      fun r r' => r.1.Mirrors m r'.1 ∧ r.2.Mirrors m r'.2 := by
  unfold bindNext
  refine hbd.free.casesOn ?_ fun {p q _ _} hpq hrest => ?_
  · refine rel_elim hsig.variadic? ?_ fun p q hpq =>
      .andPure (checkSupplied_agrees T hvisit hpq hpq.restElement hxy) fun _ _ ha => ⟨ha, hbd⟩
    rw [hsig.positional.length_eq, suppliedSpan_eq T hxy]
    refine .andThen (report_agrees _ rfl rfl fun h => by rw [hsig.callee h]) fun _ _ => ?_
    exact .andPure (suppliedType_agrees T hvisit .none hxy) fun _ _ ha => ⟨ha, hbd⟩
  · dsimp only
    rw [hpq.name, hbd.supplied, suppliedSpan_eq T hxy]
    refine .andThen (reportIf_agrees _ rfl rfl rfl fun _ => rfl) fun _ _ => ?_
    refine .andPure (checkSupplied_agrees T hvisit hpq hpq.ty hxy) fun a a' ha => ⟨ha, ?_⟩
    exact { hbd.supply _ with free := hrest }

lemma bindEach_agrees {xs ys : List Supplied}
    (hxs : Forall₂ (Supplied.Mirrors m (T.exprs c)) xs ys) (hbd : b.Mirrors m d) :
    m.Rules v w E (c :: cs) (bindEach env f b xs) (bindEach env' g d ys)
      fun r r' => Forall₂ (Ty.Mirrors m) r.1 r'.1 ∧ r.2.Mirrors m r'.2 := by
  induction hxs generalizing b d with
  | nil => exact .pure ⟨.nil, hbd⟩
  | cons hxy _ ih =>
    refine .bind (bindNext_agrees T hvisit hsig hbd hxy) ?_
    rintro ⟨ty, b⟩ ⟨ty', d⟩ ⟨hty, hbd⟩
    exact .andPure (ih hbd) fun _ _ h => ⟨.cons hty h.1, h.2⟩

lemma checkNamed_agrees (name : String) (hvalue : T.exprs c value) (span : Span) :
    m.Rules v w E (c :: cs) (checkNamed env f name value span)
      (checkNamed env' g name value span) (Ty.Mirrors m) := by
  unfold checkNamed
  refine rel_elim (hsig.ordinary? name) ?_ fun p q hpq =>
    checkSupplied_agrees T hvisit hpq hpq.ty (.expr hvalue)
  refine rel_elim hsig.kwVariadic? ?_ fun p q hpq =>
    checkSupplied_agrees T hvisit hpq hpq.restValue (.expr hvalue)
  refine .andThen (report_agrees span rfl rfl fun h => by rw [hsig.callee h]) fun _ _ => ?_
  exact hvisit.value hvalue .none

lemma bindNamed_agrees (hbd : b.Mirrors m d) (name : String) (hvalue : T.exprs c value)
    (span : Span) {repeated : Finding} (hordinary : repeated.isOrdinary) :
    m.Rules v w E (c :: cs) (bindNamed env f b name value span repeated)
      (bindNamed env' g d name value span repeated)
      fun r r' => r.1.Mirrors m r'.1 ∧ r.2.Mirrors m r'.2 := by
  unfold bindNamed
  rw [hbd.supplied]
  split
  · refine .andThen (reportSame_agrees span hordinary) fun _ _ => ?_
    exact .andPure (hvisit.value hvalue .none) fun _ _ hty => ⟨hty, hbd⟩
  · exact .andPure (checkNamed_agrees T hvisit hsig name hvalue span)
      fun _ _ hty => ⟨hty, hbd.supply name⟩

lemma bindSpread_agrees (hbd : b.Mirrors m d) (ha : a.Mirrors m a')
    (span : Span) : m.Rules v w E (c :: cs) (bindSpread env f b a span)
      (bindSpread env' g d a' span) (Mirrors m) := by
  -- Every type but a tuple is bound by the element it has as an array.
  have hother (hx : ∀ elements, a ≠ .tuple elements) (hy : ∀ elements, a' ≠ .tuple elements) :
      m.Rules v w E (c :: cs) (bindSpread env f b a span)
        (bindSpread env' g d a' span) (Mirrors m) := by
    unfold bindSpread
    split
    · exact absurd rfl (hx _)
    rw [ha.isAbsorbing]
    split
    · exact .pure hbd.fillAny
    · refine rel_elim ha.arrayElement? ?_ fun element element' helement =>
        rel_elim hsig.variadic? ?_ fun p q hpq => ?_
      · refine .andThen (report_agrees span rfl rfl fun h => ?_) fun _ _ => .pure hbd
        unfold message
        simp only [Text.same h ha]
      · refine .andThen (report_agrees span rfl rfl fun h => ?_) fun _ _ => .pure hbd
        unfold message
        simp only [Text.same h ha, hsig.callee h]
      · dsimp only
        rw [hpq.name]
        exact .andThen (mismatch_agrees _ helement hpq.restElement span) fun _ _ => .pure hbd
  cases ha with
  | tuple h =>
    refine .andPure (bindEach_agrees T hvisit hsig ?_ hbd) fun _ _ h => h.2
    exact rel_map (fun _ _ h => .element h span) h
  | prim | bare | named | union | fn | param | error | unknown => exact hother (by simp) (by simp)

omit hsig in
lemma spreadKeyTypes_agrees (hkeys : ∀ entry ∈ entries, T.exprs c entry.key) :
    m.Rules v w E (c :: cs) (spreadKeyTypes env entries)
      (spreadKeyTypes env' entries) (Forall₂ (Ty.Mirrors m)) := by
  refine .mapM (pairedSelf entries) ?_
  rintro entry _ ⟨rfl, hentry⟩
  refine .bind (hvisit.value (hkeys entry hentry) (.some (.prim _))) fun a a' ha => ?_
  rw [T.span]
  exact .andThen (checkSpreadKey_agrees ha _) fun _ _ => .pure ha

lemma bindEntries_agrees {entries : List (String × MapEntry)}
    (hvalues : ∀ entry ∈ entries, T.exprs c entry.2.value) (hbd : b.Mirrors m d) :
    m.Rules v w E (c :: cs) (bindEntries env f b entries) (bindEntries env' g d entries)
      fun r r' => Forall₂ (Ty.Mirrors m) r.1 r'.1 ∧ r.2.Mirrors m r'.2 := by
  induction entries generalizing b d with
  | nil => exact .pure ⟨.nil, hbd⟩
  | cons entry rest ih =>
    obtain ⟨hvalue, hrest⟩ := forall_mem_cons.mp hvalues
    obtain ⟨key, entry⟩ := entry
    unfold bindEntries
    rw [T.span]
    refine .bind (bindNamed_agrees T hvisit hsig hbd key hvalue _ rfl) ?_
    rintro ⟨ty, b⟩ ⟨ty', d⟩ ⟨hty, hbd⟩
    exact .andPure (ih hrest hbd) fun _ _ h => ⟨.cons hty h.1, h.2⟩

lemma bindMapLiteral_agrees (hbd : b.Mirrors m d) (id : ExprId)
    (hentries : ∀ entry ∈ entries, T.exprs c entry.key ∧ T.exprs c entry.value) :
    m.Rules v w E (c :: cs) (bindMapLiteral env f b id entries)
      (bindMapLiteral env' g d id entries) (Mirrors m) := by
  have hliteral : env.program.literalKey? = env'.program.literalKey? :=
    funext fun entry => T.alike.literalKey? entry
  refine .bind (spreadKeyTypes_agrees T hvisit fun entry h => (hentries entry h).1)
    fun keys keys' hkeys => ?_
  rw [hliteral]
  cases entries.mapM env'.program.literalKey? with
  | none =>
    refine .andThen (hvisit.each fun entry h => (hentries entry h).2) fun _ _ => ?_
    exact .andThen (record_agrees id (.map (.prim _) .unknown)) fun _ _ => .pure hbd.fillAny
  | some names =>
    refine .bind (bindEntries_agrees T hvisit hsig ?_ hbd) ?_
    · exact fun entry h => (hentries entry.2 (of_mem_zip h).2).2
    rintro ⟨values, b⟩ ⟨values', d⟩ ⟨hvalues, hbd⟩
    refine .andThen (record_agrees id ?_) fun _ _ => .pure hbd
    split
    · exact .map (.prim _) .unknown
    · exact .map (.makeUnion hkeys) (.makeUnion hvalues)

lemma bindArgument_agrees (hbd : b.Mirrors m d)
    (harg : T.exprs c arg.value) : m.Rules v w E (c :: cs) (bindArgument env f b arg)
      (bindArgument env' g d arg) (Mirrors m) := by
  have hspread : m.Rules v w E (c :: cs)
      (visit (.value none) arg.value >>= fun ty => bindSpread env f b ty arg.span)
      (visit (.value none) arg.value >>= fun ty => bindSpread env' g d ty arg.span)
      (Mirrors m) :=
    .bind (hvisit.value harg .none) fun _ _ h => bindSpread_agrees T hvisit hsig hbd h arg.span
  have hkeyword : m.Rules v w E (c :: cs)
      (visit (.value none) arg.value >>= fun ty => bindKeywordSpread f b ty arg.span)
      (visit (.value none) arg.value >>= fun ty => bindKeywordSpread g d ty arg.span)
      (Mirrors m) :=
    .bind (hvisit.value harg .none) fun _ _ h => bindKeywordSpread_agrees hsig hbd h arg.span
  unfold bindArgument
  cases arg.kind with
  | positional =>
    exact .andPure (bindNext_agrees T hvisit hsig hbd (.expr harg)) fun _ _ h => h.2
  | named name =>
    exact .andPure (bindNamed_agrees T hvisit hsig hbd name.name harg name.span rfl)
      fun _ _ h => h.2
  | spread =>
    refine T.kind_elim arg.value (fun _ _ _ => hspread) (fun _ _ _ => hspread) fun kind hkind => ?_
    cases kind with
    | tuple elements =>
      have helements : Forall₂ (Supplied.Mirrors m (T.exprs c)) (elements.map .expr)
          (elements.map .expr) := by
        rw [forall₂_map_left_iff, forall₂_map_right_iff]
        exact forall₂_same.mpr fun element h => .expr (T.part harg hkind h)
      refine .bind (bindEach_agrees T hvisit hsig helements hbd) ?_
      rintro ⟨types, b⟩ ⟨types', d⟩ ⟨htypes, hbd⟩
      exact .andThen (record_agrees arg.value (.tuple htypes)) fun _ _ => .pure hbd
    | _ => exact hspread
  | keywordSpread =>
    refine T.kind_elim arg.value (fun _ _ _ => hkeyword) (fun _ _ _ => hkeyword) fun kind hkind => ?_
    cases kind with
    | map entries =>
      refine bindMapLiteral_agrees T hvisit hsig hbd arg.value fun entry h => ?_
      exact ⟨T.part harg hkind (mem_flatMap.mpr ⟨entry, h, by simp⟩),
        T.part harg hkind (mem_flatMap.mpr ⟨entry, h, by simp⟩)⟩
    | _ => exact hkeyword

lemma bindArguments_agrees (hargs : ∀ arg ∈ args, T.exprs c arg.value)
    (span : Span) : m.Rules v w E (c :: cs) (bindArguments env f args span)
      (bindArguments env' g args span) Both := by
  have hbound : m.Rules v w E (c :: cs) (args.foldlM (bindArgument env f) (start f))
      (args.foldlM (bindArgument env' g) (start g)) (Mirrors m) := by
    refine .foldlM (pairedSelf args) ?_ ⟨hsig.positional, rfl, rfl⟩
    rintro b d arg _ hbd ⟨rfl, harg⟩
    exact bindArgument_agrees T hvisit hsig hbd (hargs arg harg)
  refine .bind hbound fun b d hbd => ?_
  unfold reportMissing
  rw [hbd.anyFilled, hbd.supplied]
  split
  · exact .pure trivial
  · refine .forM hsig.params fun p q hpq => ?_
    rw [hpq.isRequired, hpq.name]
    exact reportIf_agrees span rfl rfl rfl fun h => by rw [hsig.callee h]

end Bound

section Counted

variable {ps qs : List Ty} (hps : Forall₂ (Ty.Mirrors m) ps qs)

lemma checkExpected_agrees {x y : Option Ty} (hxy : Option.Rel (Ty.Mirrors m) x y)
    (hab : a.Mirrors m b) (span : Span) :
    m.Rules v w E cs (checkExpected x a span) (checkExpected y b span) Both := by
  cases hxy with
  | none => exact .pure trivial
  | some hxy => exact mismatch_agrees _ hab hxy span

include hps

lemma countTypes_agrees {xs ys : List Ty} (hxs : Forall₂ (Ty.Mirrors m) xs ys)
    (span : Span) (position : Nat) : m.Rules v w E cs (countTypes ps span position xs)
      (countTypes qs span position ys) Both := by
  induction hxs generalizing position with
  | nil => exact .pure trivial
  | cons hxy _ ih =>
    exact .andThen (checkExpected_agrees (forall₂_getElem? hps position) hxy span)
      fun _ _ => ih (position + 1)

lemma countSpread_agrees (n : Count) (hab : a.Mirrors m b) (span : Span) :
    m.Rules v w E cs (countSpread ps n a span) (countSpread qs n b span) (· = ·) := by
  have hother : m.Rules v w E cs
      (if a.isAbsorbing || a.arrayElement?.isSome then pure { n with anyFilled := true } else do
        report (.invalidSpread a) span
        return n)
      (if b.isAbsorbing || b.arrayElement?.isSome then pure { n with anyFilled := true } else do
        report (.invalidSpread b) span
        return n) (· = ·) := by
    rw [hab.isAbsorbing, rel_isSome hab.arrayElement?]
    split
    · exact .pure rfl
    · refine .andThen (report_agrees span rfl rfl fun h => ?_) fun _ _ => .pure rfl
      unfold message
      simp only [Text.same h hab]
  cases hab with
  | tuple h =>
    refine .andThen (countTypes_agrees hps h span n.supplied) fun _ _ => ?_
    rw [h.length_eq]
    exact .pure rfl
  | prim | bare | named | union | fn | param | error | unknown => exact hother

lemma reportCount_agrees (n : Count) (span : Span) :
    m.Rules v w E cs (reportCount ps n span) (reportCount qs n span) Both := by
  unfold reportCount
  rw [hps.length_eq]
  split
  · exact .pure trivial
  · split
    · exact reportSame_agrees span rfl
    · exact reportIf_agrees span rfl rfl rfl fun _ => rfl

variable (hvisit : m.VisitsAlike v w (m.States E (c :: cs)) (T.exprs c))

include hvisit

lemma countValue_agrees (position : Nat) (hvalue : T.exprs c value) :
    m.Rules v w E (c :: cs) (countValue env ps position value)
      (countValue env' qs position value) (Ty.Mirrors m) := by
  have hexpected := forall₂_getElem? hps position
  refine .bind (hvisit.value hvalue hexpected) fun a b hab => ?_
  rw [T.span]
  exact .andThen (checkExpected_agrees hexpected hab _) fun _ _ => .pure hab

lemma countElements_agrees {elements : List ExprId} (helements : ∀ e ∈ elements, T.exprs c e)
    (position : Nat) : m.Rules v w E (c :: cs) (countElements env ps position elements)
      (countElements env' qs position elements) (Forall₂ (Ty.Mirrors m)) := by
  induction elements generalizing position with
  | nil => exact .pure .nil
  | cons element rest ih =>
    obtain ⟨helement, hrest⟩ := forall_mem_cons.mp helements
    refine .bind (countValue_agrees T hps hvisit position helement) fun a b hab => ?_
    exact .andPure (ih hrest (position + 1)) fun _ _ h => .cons hab h

lemma countArgument_agrees (n : Count) (harg : T.exprs c arg.value) :
    m.Rules v w E (c :: cs) (countArgument env ps n arg) (countArgument env' qs n arg) (· = ·) := by
  have hspread : m.Rules v w E (c :: cs)
      (visit (.value none) arg.value >>= fun ty => countSpread ps n ty arg.span)
      (visit (.value none) arg.value >>= fun ty => countSpread qs n ty arg.span) (· = ·) :=
    .bind (hvisit.value harg .none) fun _ _ h => countSpread_agrees hps n h arg.span
  unfold countArgument
  cases arg.kind with
  | positional =>
    exact .andPure (countValue_agrees T hps hvisit n.supplied harg) fun _ _ _ => rfl
  | named name =>
    refine .andThen (reportSame_agrees name.span rfl) fun _ _ => ?_
    exact .andThen (hvisit.only harg) fun _ _ => .pure rfl
  | spread =>
    refine T.kind_elim arg.value (fun _ _ _ => hspread) (fun _ _ _ => hspread) fun kind hkind => ?_
    cases kind with
    | tuple elements =>
      have helements := countElements_agrees T hps hvisit (fun _ h => T.part harg hkind h) n.supplied
      refine .bind helements fun xs ys hxs => ?_
      exact .andThen (record_agrees arg.value (.tuple hxs)) fun _ _ => .pure rfl
    | _ => exact hspread
  | keywordSpread =>
    refine .andThen (hvisit.only harg) fun _ _ => ?_
    exact .andThen (reportSame_agrees arg.span rfl) fun _ _ => .pure rfl

lemma countArguments_agrees (hargs : ∀ arg ∈ args, T.exprs c arg.value) (span : Span) :
    m.Rules v w E (c :: cs) (countArguments env ps args span)
      (countArguments env' qs args span) Both := by
  have hcount : m.Rules v w E (c :: cs) (args.foldlM (countArgument env ps) {})
      (args.foldlM (countArgument env' qs) {}) (· = ·) := by
    refine .foldlM (pairedSelf args) ?_ rfl
    rintro n _ arg _ rfl ⟨rfl, harg⟩
    exact countArgument_agrees T hps hvisit n (hargs arg harg)
  refine .bind hcount ?_
  rintro n _ rfl
  exact reportCount_agrees hps n span

end Counted

lemma callType_agrees (hvisit : m.VisitsAlike v w (m.States E (c :: cs)) (T.exprs c)) {callee : ExprId}
    (hcallee : T.exprs c callee) (hname : ∀ name, env.exprKind callee = .name name → c name name)
    (hargs : ∀ arg ∈ args, T.exprs c arg.value) (span : Span) :
    m.Rules v w E (c :: cs) (callType env callee args span)
      (callType env' callee args span) (Ty.Mirrors m) := by
  refine .bind (resolveCallee_agrees T hvisit hcallee hname) fun f g hfg => ?_
  cases hfg with
  | bound hsig hresult =>
    exact .andThen (bindArguments_agrees T hvisit hsig hargs span) fun _ _ => .pure hresult
  | unnamed hparams hresult =>
    exact .andThen (countArguments_agrees T hparams hvisit hargs span) fun _ _ => .pure hresult
  | untracked hresult => exact .andThen (hvisit.each hargs) fun _ _ => .pure hresult

end Mirror

end StaticTyping
