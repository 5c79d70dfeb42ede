import StaticTyping.Proofs.Effect
import StaticTyping.Proofs.Visited.Alias
import StaticTyping.Proofs.Visited.Expr

/-! What calls record and report. The parameters of what is called have different names, so that no two of
them are missing under one name. With that it is known what any expression records: itself and all
expressions below it, once for each way down. -/

namespace StaticTyping

open ExprKind Supplied List Rule StaticTyping.Action Account Nat
open Diagnostic hiding span

variable {β : Type} {action : Action β} {B : ExprId → Prop} {args : List Argument} {id : ExprId}
  {value : Supplied} {entries : List MapEntry} {b : Binding}

def Callee.Tidy : Callee → Prop
  | .bound sig _ => (sig.params.map (·.name)).Nodup
  | .unnamed _ _ | .untracked _ => True

lemma toString_nat_injective : Function.Injective (toString : Nat → String) := by
  intro a b h
  have hdigits : toDigits 10 a = toDigits 10 b := String.ofList_inj.mp h
  calc
    a = ofDigitChars 10 (toDigits 10 a) 0 := ofDigitChars_ten_toDigits.symm
    _ = ofDigitChars 10 (toDigits 10 b) 0 := by rw [hdigits]
    _ = b := ofDigitChars_ten_toDigits

lemma Symbol.nodup_payloadParams (variant : Symbol) :
    (variant.payloadParams.map (·.name)).Nodup := by
  have hnames : variant.payloadParams.map (·.name) =
      (variant.payload.zipIdx.map Prod.snd).map toString := by
    rw [payloadParams, map_map, map_map]
    rfl
  rw [hnames, zipIdx_map_snd]
  exact (nodup_range').map toString_nat_injective

def Binding.Tidy (b : Binding) : Prop := (b.free.map (·.name)).Nodup

namespace Supplied

variable {N : Type} (acc : Account N)

def Below (B : ExprId → Prop) : Supplied → Prop
  | .expr value => B value
  | .element _ _ => True

def tree [Zero N] : Supplied → N
  | .expr value => acc.tree value
  | .element _ _ => 0

def cost : Supplied → ℕ
  | .expr value => acc.cost value
  | .element _ _ => 0

def total : Supplied → ℕ
  | .expr value => acc.total value
  | .element _ span => acc.d.marks span

end Supplied

namespace Rule

lemma length_of_mapM_eq_some {α : Type} {f : α → Option β} {xs : List α} {ys : List β}
    (h : xs.mapM f = some ys) : ys.length = xs.length := by
  induction xs generalizing ys with
  | nil => simp_all
  | cons x xs ih =>
    simp only [mapM_cons, Option.bind_eq_bind, Option.bind_eq_some_iff, Option.pure_def,
      Option.some.injEq] at h
    obtain ⟨y, -, rest, hrest, rfl⟩ := h
    simp [ih hrest]

lemma sum_entries {N : Type} [AddMonoid N] (T : ExprId → N) (entries : List MapEntry) :
    ((map entries).children.map T).sum =
      (entries.map fun entry => T entry.key + T entry.value).sum := by
  induction entries with
  | nil => rfl
  | cons entry rest ih =>
    simp only [children] at ih ⊢
    simp [ih, add_assoc]

lemma entries_below (h : ∀ c ∈ (map entries).children, B c) :
    ∀ entry ∈ entries, B entry.key ∧ B entry.value := by
  intro entry hentry
  constructor <;> exact h _ (mem_flatMap.mpr ⟨entry, hentry, by simp⟩)

variable {N : Type} [AddCommMonoid N] {acc : Account N} {span : Span} {arg : Argument}

section Callee

variable {id : ExprId}

lemma methodCallee_gives (method : SymbolId) (σ : Substitution) :
    acc.Gives [] (acc.one id) 0 (methodCallee id method σ) Callee.Tidy := by
  refine of_symbol fun declared htidy => (record_does id _).giving fun _ ht => ?_
  simpa [Callee.Tidy, Function.comp_def] using (htidy ht).params

lemma variantCallee_gives (declared : Symbol) :
    acc.Gives [] (acc.one id) 0 (variantCallee id declared) Callee.Tidy := by
  have howner : acc.Does [] 0 0 (ownerName declared) := by
    unfold ownerName
    split
    · exact .pure _
    · exact of_symbol fun _ _ => .pure _
  exact howner.after fun owner => (record_does id _).giving fun _ _ => declared.nodup_payloadParams

lemma constructorCallee_gives (type : SymbolId) :
    acc.Gives [] (acc.one id) (acc.d.charge (some .notCallable) span) (constructorCallee id type span)
      Callee.Tidy := by
  refine of_symbol fun declared _ => ?_
  cases declared.kind with
  | classType =>
    have hparams : acc.Gives [] 0 0 (constructorParams declared)
        fun params => (params.map (·.name)).Nodup := by
      unfold constructorParams
      split
      · exact .answer fun _ => nodup_nil
      · exact of_symbol fun _ htidy => .answer fun ht => (htidy ht).params
    refine (hparams.after fun params hnodup => ?_).le (zero_le _)
    exact (record_does id _).giving fun _ => hnodup
  | structType | value | function | enumType | typeAlias | variant | typeParam =>
    exact (report_charge (.inl rfl) .notCallable rfl).andThen fun _ =>
      (record_does id _).giving fun _ _ => trivial

lemma calleeOfType_gives (ty : Ty) :
    acc.Gives [] 0 (acc.d.charge (some .notCallable) span) (calleeOfType ty span) Callee.Tidy := by
  unfold calleeOfType
  split
  · exact .answer fun _ => trivial
  · exact .answer fun _ => trivial
  · split
    · exact .answer fun _ => trivial
    · exact (report_charge (.inl rfl) .notCallable rfl).giving fun _ _ => trivial

variable (h : acc.Descends)
include h

lemma valueCallee_gives (hid : acc.visits id) :
    acc.Gives [] (acc.tree id) (acc.total id) (valueCallee acc.env id) Callee.Tidy :=
  ((visit_does hid _).before fun _ => calleeOfType_gives _).le (h.cost_add_charge hid .notCallable rfl)

lemma nameCallee_gives (hid : acc.visits id) {name : String} (hkind : acc.env.exprKind id = .name name) :
    acc.Gives [] (acc.tree id) (acc.total id) (nameCallee acc.env id name) Callee.Tidy := by
  -- A name has no children: to record it is all that a visit would do.
  have htree : acc.tree id = acc.one id := by simpa [children] using (h.kind hid hkind).1
  refine (lookupValue_does name).after fun found => ?_
  cases found with
  | some valueId =>
    refine of_symbol fun declared htidy => ?_
    split
    · exact htree ▸ .le ((record_does id _).giving fun _ ht => (htidy ht).params) (zero_le _)
    · exact htree ▸ (variantCallee_gives declared).le (zero_le _)
    · exact valueCallee_gives h hid
  | none =>
    refine (lookupType_does name).after fun found => ?_
    cases found with
    | some type =>
      refine htree ▸ (constructorCallee_gives type).le ?_
      exact (le_add_left _ _).trans (h.cost_add_charge hid .notCallable rfl)
    | none => exact valueCallee_gives h hid

lemma memberCallee_gives (hid : acc.visits id) {object : ExprId} {property : Ident}
    (hkind : acc.env.exprKind id = .member object property) :
    acc.Gives [] (acc.tree id) (acc.total id) (memberCallee acc.env id object property) Callee.Tidy := by
  obtain ⟨htree, hchildren⟩ := h.kind hid hkind
  have hsplit : acc.tree id = acc.tree object + acc.one id := by simpa [children, add_comm] using htree
  have hcost := h.cost_of_kind hid hkind
  have hcallable := acc.d.charge_le_share (some .notCallable) (acc.env.exprSpan id)
  have hunknown := acc.d.charge_le_marks (some .unknownMember) property.span
  simp only [spans, children, marksIn_cons, marksIn_nil, map_cons, map_nil, sum_cons, sum_nil] at hcost
  have htotal : acc.total object + (acc.d.marks property.span +
      acc.d.charge (some .notCallable) (acc.env.exprSpan id)) ≤ acc.total id := by
    have huse : Aspect.ofTopic (some .notCallable) = .use := rfl
    rw [huse] at hcallable
    omega
  rw [hsplit]
  refine ((visit_total h (hchildren object (.head _)) _).bind fun objectType =>
    (lookupMember_does _ _).after fun found => ?_).le htotal
  split
  · exact (methodCallee_gives _ _).le (zero_le _)
  · refine ((record_does id _).before fun _ => calleeOfType_gives _).le ?_
    omega
  · refine .le ((report_charge (.inl rfl) .unknownMember rfl).andThen fun _ =>
      (record_does id _).giving fun _ _ => trivial) ?_
    omega
  · exact .le ((record_does id _).giving fun _ _ => trivial) (zero_le _)

lemma resolveCallee_gives (hid : acc.visits id) :
    acc.Gives [] (acc.tree id) (acc.total id) (resolveCallee acc.env id) Callee.Tidy := by
  unfold resolveCallee
  split
  · rename_i name hkind
    exact nameCallee_gives h hid hkind
  · rename_i object property hkind
    exact memberCallee_gives h hid hkind
  · exact valueCallee_gives h hid

end Callee

section Binding

variable {sig : Signature} {value : Supplied}

lemma checkMutable_does (param : ParamInfo) (value : Supplied) :
    acc.Does [] 0 (acc.d.charge (some .mutableArgument) (value.span acc.env))
      (checkMutable acc.env param value) := by
  have hvariable : acc.Does [] 0 0 (isMutableVariable acc.env value) := by
    unfold isMutableVariable
    split
    · exact .pure _
    · split
      · refine (lookupValue_does _).after fun found => ?_
        cases found with
        | none => exact .pure _
        | some id => exact of_symbol fun _ _ => .pure _
      · exact .pure _
  unfold checkMutable
  split
  · exact hvariable.after fun _ => reportIf_does (report_charge (.inl rfl) .mutableArgument rfl)
  · exact .pure _

lemma suppliedType_does (hvalue : value.Below acc.visits) (hint : Option Ty) :
    acc.Does [] (value.tree acc) (value.cost acc) (suppliedType hint value) := by
  cases value with
  | expr id => exact visit_does hvalue _
  | element ty span => exact .pure _

lemma checkSupplied_does (hvalue : value.Below acc.visits) (param : ParamInfo) (expected : Ty) :
    acc.Does [] (value.tree acc) (value.cost acc + (acc.d.charge (some .typeMismatch) (value.span acc.env) +
      acc.d.charge (some .mutableArgument) (value.span acc.env)))
      (checkSupplied acc.env param expected value) :=
  (suppliedType_does hvalue _).before fun _ =>
    (reportIf_does (report_charge (.inl rfl) .typeMismatch rfl)).andThen fun _ =>
      (checkMutable_does param value).andPure

variable (h : acc.Descends)
include h

/-- What is reported about the use of a value that is supplied belongs to its total. -/
lemma cost_add_charges (hvalue : value.Below acc.visits) (codes : List Code)
    (hnodup : codes.Nodup) (huse : ∀ code ∈ codes, Aspect.ofTopic (some code) = .use) :
    value.cost acc + (codes.map fun code => acc.d.charge (some code) (value.span acc.env)).sum ≤
      value.total acc := by
  have htopics : (codes.map some).Nodup := hnodup.map (Option.some_injective _)
  have hmap (span : Span) : (codes.map fun code => acc.d.charge (some code) span).sum =
      ((codes.map some).map (acc.d.charge · span)).sum := by rw [map_map]; rfl
  cases value with
  | expr id =>
    have hshare := acc.d.sum_charge_le_share (codes.map some) htopics
      (forall_mem_map.mpr huse) (acc.env.exprSpan id)
    have htotal := h.total id hvalue
    simp only [Supplied.cost, Supplied.total, Supplied.span, hmap]
    omega
  | element ty span =>
    have hmarks := acc.d.sum_charge_le_marks (codes.map some) htopics span
    simp only [Supplied.cost, Supplied.total, Supplied.span, hmap]
    omega

variable (hcalls : acc.calls)
include hcalls

lemma bindNext_gives (hvalue : value.Below acc.visits) (hb : acc.tidy → b.Tidy) :
    acc.Gives [] (value.tree acc) (value.total acc) (bindNext acc.env sig b value)
      fun found => found.2.Tidy := by
  have hbound := cost_add_charges h hvalue [.duplicateArgument, .typeMismatch, .mutableArgument]
    (by decide) (by decide)
  have hleft := cost_add_charges h hvalue [.tooManyPositional] (by decide) (by decide)
  simp only [map_cons, map_nil, sum_cons, sum_nil] at hbound hleft
  unfold bindNext
  split
  · rename_i param free hfree
    have hrest (ht : acc.tidy) : (free.map (·.name)).Nodup := by
      have htidy : ((param :: free).map (·.name)).Nodup := hfree ▸ hb ht
      exact (nodup_cons.mp htidy).2
    refine .le ((reportIf_does (report_charge (.inr hcalls) .duplicateArgument rfl)).andThen fun _ =>
      (checkSupplied_does hvalue _ _).giving fun _ => hrest) ?_
    omega
  · refine .le ((checkSupplied_does hvalue _ _).giving fun _ => hb) ?_
    omega
  · refine .le ((report_charge (.inr hcalls) .tooManyPositional rfl).andThen fun _ =>
      (suppliedType_does hvalue none).giving fun _ => hb) ?_
    omega

lemma bindEach_gives {values : List Supplied} (hvalues : ∀ value ∈ values, value.Below acc.visits)
    (hb : acc.tidy → b.Tidy) : acc.Gives [] (values.map (Supplied.tree acc)).sum
      (values.map (Supplied.total acc)).sum
      (bindEach acc.env sig b values) fun found => found.2.Tidy := by
  induction values generalizing b with
  | nil => exact .answer hb
  | cons value rest ih =>
    obtain ⟨hvalue, hrest⟩ := forall_mem_cons.mp hvalues
    exact (bindNext_gives h hcalls hvalue hb).bind fun first hfirst =>
      (ih hrest hfirst).andPure fun _ hfound => hfound

variable {value : ExprId}

lemma checkNamed_does (hvalue : acc.visits value) (name : String) :
    acc.Does [] (acc.tree value) (acc.d.charge (some .unknownNamedArgument) span + acc.total value)
      (checkNamed acc.env sig name value span) := by
  have hsupplied : (expr value).Below acc.visits := hvalue
  have hbound := cost_add_charges h hsupplied [.typeMismatch, .mutableArgument] (by decide) (by decide)
  simp only [map_cons, map_nil, sum_cons, sum_nil, Supplied.total] at hbound
  unfold checkNamed
  split
  · refine (checkSupplied_does hsupplied _ _).le ?_
    omega
  · refine (checkSupplied_does hsupplied _ _).le ?_
    omega
  · exact (report_charge (.inr hcalls) .unknownNamedArgument rfl).andThen fun _ => visit_total h hvalue _

lemma bindNamed_gives (hvalue : acc.visits value) (hb : acc.tidy → b.Tidy) (name : String)
    {repeated : Finding} (code : Code) (hcode : repeated.topic = some code) :
    acc.Gives [] (acc.tree value) (acc.d.charge (some code) span +
      acc.d.charge (some .unknownNamedArgument) span + acc.total value)
      (bindNamed acc.env sig b name value span repeated) fun found => found.2.Tidy := by
  unfold bindNamed
  split
  · refine .le ((report_charge (.inr hcalls) code hcode).andThen fun _ =>
      (visit_total h hvalue _).giving fun _ => hb) ?_
    omega
  · refine .le ((checkNamed_does h hcalls hvalue name).giving fun _ => hb) ?_
    omega

section

omit h

variable (hspan : ∀ code : Code, code.isPerElement → acc.d.charge (some code) span = 0)
include hspan

/-- An element of a tuple that is spread counts only if its parameter is supplied already. -/
lemma bindElement_gives (b : Binding) (ty : Ty) :
    acc.Gives [] 0 ((b.free.take 1).map fun param => acc.d.price (.argumentRepeated param.name) span).sum
      (bindNext acc.env sig b (.element ty span)) fun found => found.2.free = b.free.drop 1 := by
  have hsupplied (param : ParamInfo) (expected : Ty) :
      acc.Does [] 0 0 (checkSupplied acc.env param expected (.element ty span)) := by
    have hbelow : (element ty span).Below acc.visits := trivial
    refine (checkSupplied_does hbelow param expected).le ?_
    simp [Supplied.cost, Supplied.span, hspan .typeMismatch rfl, hspan .mutableArgument rfl]
  unfold bindNext
  split
  · rename_i param free hfree
    rw [hfree, take_succ_cons, take_zero, map_singleton, sum_singleton]
    exact (reportIf_does (report_price (.inr hcalls))).andThen (l := 0) fun _ =>
      (hsupplied param param.ty).giving fun _ _ => rfl
  · rename_i param hfree _
    rw [hfree]
    exact (hsupplied param param.restElement).giving fun _ _ => hfree
  · rename_i hfree _
    rw [hfree]
    exact Does.giving (((report_charge (.inr hcalls) .tooManyPositional rfl).le
      (hspan .tooManyPositional rfl).le).andPure) fun _ _ => hfree

lemma bindElements_gives (hb : acc.tidy → b.Tidy) (types : List Ty) :
    acc.Gives [] 0 (b.free.map fun param => acc.d.price (.argumentRepeated param.name) span).sum
      (bindEach acc.env sig b (types.map (.element · span))) fun found => found.2.Tidy := by
  induction types generalizing b with
  | nil => exact .answer hb
  | cons ty rest ih =>
    have hsplit : (b.free.map fun param => acc.d.price (.argumentRepeated param.name) span).sum =
        ((b.free.take 1).map fun param => acc.d.price (.argumentRepeated param.name) span).sum +
          ((b.free.drop 1).map fun param => acc.d.price (.argumentRepeated param.name) span).sum := by
      rw [← sum_append_nat, ← map_append, take_append_drop]
    rw [hsplit, ← add_zero 0]
    refine (bindElement_gives hcalls hspan b ty).bind fun first hfirst => ?_
    have hrest (ht : acc.tidy) : first.2.Tidy := by
      rw [Binding.Tidy, hfirst ht, map_drop]
      exact (hb ht).sublist (drop_sublist _ _)
    refine .le ((ih hrest).andPure fun _ hfound => hfound) ?_
    -- What is left to report is known unless nothing costs anything.
    by_cases hd : acc.d.span = none
    · simp [price_eq_zero hd]
    · rw [hfirst (acc.tidy_of_placed hd)]

/-- Of a spread, the elements have different parameters, and all else is reported once. -/
lemma bindSpread_gives (hb : acc.tidy → b.Tidy) (ty : Ty) :
    acc.Gives [] 0 (acc.d.marks span) (bindSpread acc.env sig b ty span) Binding.Tidy := by
  unfold bindSpread
  split
  · have hrepeated := acc.d.sum_price_names_le .argumentRepeated .duplicateArgument (fun _ => rfl)
      Finding.argumentRepeated_inj (hb ∘ acc.tidy_of_placed) span
    have hrepeated := hrepeated.trans (acc.d.charge_le_marks _ span)
    rw [map_map] at hrepeated
    exact .le ((bindElements_gives hcalls hspan hb _).andPure fun _ hfound => hfound) hrepeated
  · split
    · exact .answer hb
    · split
      · exact ((report_charge (.inl rfl) .invalidSpread rfl).giving fun _ => hb).le
          (acc.d.charge_le_marks _ span)
      · exact ((report_charge (.inl rfl) .invalidSpread rfl).giving fun _ => hb).le
          (acc.d.charge_le_marks _ span)
      · exact ((reportIf_does (report_charge (.inl rfl) .typeMismatch rfl)).giving fun _ => hb).le
          (acc.d.charge_le_marks _ span)

end

lemma bindEntries_gives {entries : List (String × MapEntry)}
    (hentries : ∀ entry ∈ entries, acc.visits entry.2.value) (hb : acc.tidy → b.Tidy) :
    acc.Gives [] (entries.map fun entry => acc.tree entry.2.value).sum (entries.map fun entry =>
      acc.d.charge (some .keywordSpreadOverlap) (acc.env.exprSpan entry.2.key) +
        acc.d.charge (some .unknownNamedArgument) (acc.env.exprSpan entry.2.key) +
        acc.total entry.2.value).sum (bindEntries acc.env sig b entries) fun found => found.2.Tidy := by
  induction entries generalizing b with
  | nil => exact .answer hb
  | cons entry rest ih =>
    obtain ⟨hentry, hrest⟩ := forall_mem_cons.mp hentries
    exact (bindNamed_gives h hcalls hentry hb _ .keywordSpreadOverlap rfl).bind fun first hfirst =>
      (ih hrest hfirst).andPure fun _ hfound => hfound

/-- First all keys are visited, then all values. What is reported of a key as a key and as the name of
an argument are different topics. -/
lemma bindMapLiteral_gives
    (hentries : ∀ entry ∈ entries, acc.visits entry.key ∧ acc.visits entry.value)
    (hb : acc.tidy → b.Tidy) : acc.Gives []
      ((entries.map fun entry => acc.tree entry.key + acc.tree entry.value).sum + acc.one id)
      (entries.map fun entry => acc.total entry.key + acc.total entry.value).sum
      (bindMapLiteral acc.env sig b id entries) Binding.Tidy := by
  have hentry : ∀ entry ∈ entries, acc.cost entry.key +
      acc.d.charge (some .nonStringSpreadKey) (acc.env.exprSpan entry.key) +
      (acc.d.charge (some .keywordSpreadOverlap) (acc.env.exprSpan entry.key) +
        acc.d.charge (some .unknownNamedArgument) (acc.env.exprSpan entry.key) +
        acc.total entry.value) ≤ acc.total entry.key + acc.total entry.value := by
    intro entry hentry
    have hkey : (expr entry.key).Below acc.visits := (hentries entry hentry).1
    have hbound := cost_add_charges h hkey
      [.nonStringSpreadKey, .keywordSpreadOverlap, .unknownNamedArgument] (by decide) (by decide)
    simp only [map_cons, map_nil, sum_cons, sum_nil, Supplied.cost, Supplied.total,
      Supplied.span] at hbound
    omega
  have hsum := sum_le_sum hentry
  rw [sum_map_add] at hsum
  rw [sum_map_add, add_assoc]
  refine (Does.bind (.mapM fun entry hentry => (visit_does (hentries entry hentry).1 _).before fun _ =>
    (reportIf_does (report_charge (.inl rfl) .nonStringSpreadKey rfl)).andPure) fun keyTypes => ?_).le hsum
  split
  · refine .le (Does.bind (l := 0) (.forM fun entry hentry => visitOnly_does h (hentries entry hentry).2)
      fun _ => (record_does id _).giving fun _ => hb) ?_
    exact sum_le_sum fun entry _ => le_add_left _ _
  · rename_i keys hkeys
    -- Every entry has a key here, so pairing them up drops none.
    have hzip : (keys.zip entries).map (·.2) = entries :=
      map_snd_zip (length_of_mapM_eq_some hkeys).ge
    have hvalues : ((keys.zip entries).map fun entry => acc.tree entry.2.value).sum =
        (entries.map fun entry => acc.tree entry.value).sum := by
      conv_rhs => rw [← hzip, map_map]
      rfl
    have hbelow : ∀ entry ∈ keys.zip entries, acc.visits entry.2.value :=
      fun entry hentry => (hentries entry.2 (of_mem_zip hentry).2).2
    rw [← hvalues]
    refine .le ((bindEntries_gives h hcalls hbelow hb).bind (l := 0) fun bound hbound =>
      (record_does id _).giving fun _ => hbound) ?_
    conv_rhs => rw [← hzip, map_map]
    exact le_rfl

omit h hcalls in
lemma bindKeywordSpread_gives (hb : acc.tidy → b.Tidy) (ty : Ty) :
    acc.Gives [] 0 (acc.d.marks span) (bindKeywordSpread sig b ty span) Binding.Tidy := by
  have hvalue (value : Ty) :
      acc.Does [] 0 (acc.d.charge (some .typeMismatch) span) (checkRestValue sig value span) := by
    unfold checkRestValue
    split
    · exact reportIf_does (report_charge (.inl rfl) .typeMismatch rfl)
    · exact .pure _
  unfold bindKeywordSpread
  split
  · exact .answer hb
  · split
    · exact ((report_charge (.inl rfl) .invalidSpread rfl).giving fun _ => hb).le
        (acc.d.charge_le_marks _ span)
    · refine .le ((reportIf_does (report_charge (.inl rfl) .nonStringSpreadKey rfl)).andThen fun _ =>
        (hvalue _).giving fun _ => hb) ?_
      simpa using acc.d.sum_charge_le_marks [some .nonStringSpreadKey, some .typeMismatch] (by decide) span

omit [AddCommMonoid N] h hcalls in
lemma charge_of_spread (hspares : acc.Spares arg) (hkind : arg.kind = .spread)
    (htuple : ∀ elements, acc.env.exprKind arg.value ≠ .tuple elements) (code : Code) :
    code.isPerElement → acc.d.charge (some code) arg.span = 0 := by
  refine hspares ?_ code
  have hnot : acc.env.program.isTuple arg.value = false := by
    unfold Program.isTuple
    split
    · rename_i elements hvalue
      exact absurd hvalue (htuple elements)
    · rfl
  simp [Program.isLooseSpread, hkind, hnot]

omit hcalls in
lemma children_le {kind : ExprKind} (hid : acc.visits id) (hkind : acc.env.exprKind id = kind) :
    (kind.children.map acc.total).sum ≤ acc.total id :=
  (le_add_left _ _).trans (le_of_add_left_le (h.cost_of_kind hid hkind))

lemma bindArgument_gives (harg : acc.visits arg.value) (hspares : acc.Spares arg)
    (hb : acc.tidy → b.Tidy) : acc.Gives [] (acc.tree arg.value)
      (acc.d.marksIn arg.spans + acc.total arg.value) (bindArgument acc.env sig b arg) Binding.Tidy := by
  unfold bindArgument Argument.spans
  cases hkind : arg.kind with
  | positional =>
    have hsupplied : (expr arg.value).Below acc.visits := harg
    exact .le ((bindNext_gives h hcalls hsupplied hb).andPure fun _ h => h) (le_add_left _ _)
  | named name =>
    have hmarks := acc.d.sum_charge_le_marks [some .duplicateArgument, some .unknownNamedArgument]
      (by decide) name.span
    refine .le ((bindNamed_gives h hcalls harg hb _ .duplicateArgument rfl).andPure fun _ h => h) ?_
    simp only [map_cons, map_nil, sum_cons, sum_nil] at hmarks
    simp only [marksIn_cons, marksIn_nil]
    omega
  | spread =>
    dsimp only
    split
    · rename_i elements hvalue
      obtain ⟨htree, hchildren⟩ := h.kind harg hvalue
      have helements := children_le h harg hvalue
      -- A tuple that is spread is never visited itself. Its elements are, and then it is recorded.
      have hsplit : acc.tree arg.value = ((elements.map expr).map (Supplied.tree acc)).sum +
          acc.one arg.value := by
        simpa [children, Supplied.tree, Function.comp_def, add_comm] using htree
      have hbelow : ∀ value ∈ elements.map expr, value.Below acc.visits :=
        forall_mem_map.mpr hchildren
      rw [hsplit]
      refine .le ((bindEach_gives h hcalls hbelow hb).bind (l := 0) fun bound hbound =>
        (record_does arg.value _).giving fun _ => hbound) ?_
      rw [map_map]
      exact helements.trans (le_add_left _ _)
    · rename_i htuple
      have hspan := charge_of_spread hspares hkind htuple
      refine ((visit_total h harg _).before fun ty => bindSpread_gives hcalls hspan hb ty).le ?_
      simp only [marksIn_cons, marksIn_nil]
      omega
  | keywordSpread =>
    dsimp only
    split
    · rename_i entries hvalue
      obtain ⟨htree, hchildren⟩ := h.kind harg hvalue
      have hentries := children_le h harg hvalue
      have hsplit : acc.tree arg.value =
          (entries.map fun entry => acc.tree entry.key + acc.tree entry.value).sum + acc.one arg.value := by
        rw [htree, add_comm, sum_entries]
      rw [sum_entries] at hentries
      rw [hsplit]
      refine (bindMapLiteral_gives h hcalls (entries_below hchildren) hb).le ?_
      exact hentries.trans (le_add_left _ _)
    · refine ((visit_total h harg _).before fun ty => bindKeywordSpread_gives hb ty).le ?_
      simp only [marksIn_cons, marksIn_nil]
      omega

omit h in
/-- The parameters that are missing have different names, so that each report is different. -/
lemma reportMissing_does (hnames : acc.tidy → (sig.params.map (·.name)).Nodup) (b : Binding) :
    acc.Does [] 0 (acc.d.share .value span) (reportMissing sig b span) := by
  have hsum := acc.d.sum_price_names_le (.missingArgument · sig.callee) .missingArgument (fun _ => rfl)
    Finding.missingArgument_inj (hnames ∘ acc.tidy_of_placed) span
  have hsum := hsum.trans (acc.d.charge_le_share _ span)
  rw [map_map] at hsum
  unfold reportMissing
  split
  · exact .pure _
  · exact .le (.forM_silent fun param _ => reportIf_does (report_price (.inr hcalls))) hsum

lemma bindArguments_does (hargs : ∀ arg ∈ args, acc.visits arg.value)
    (hspares : ∀ arg ∈ args, acc.Spares arg) (hnames : acc.tidy → (sig.params.map (·.name)).Nodup) :
    acc.Does [] (args.map fun arg => acc.tree arg.value).sum
      ((args.map fun arg => acc.d.marksIn arg.spans + acc.total arg.value).sum + acc.d.share .value span)
      (bindArguments acc.env sig args span) := by
  have hstart (ht : acc.tidy) : (Binding.start sig).Tidy := (hnames ht).sublist (filter_sublist.map _)
  refine Does.before (Gives.does (.foldlM (fun b hb arg harg => ?_) hstart)) fun b =>
    reportMissing_does hcalls hnames b
  exact bindArgument_gives h hcalls (hargs arg harg) (hspares arg harg) hb

end Binding

section Counting

variable {params : List Ty}

lemma checkExpected_does (expected : Option Ty) (found : Ty) :
    acc.Does [] 0 (acc.d.charge (some .typeMismatch) span) (checkExpected expected found span) := by
  cases expected with
  | none => exact .pure _
  | some expected => exact reportIf_does (report_charge (.inl rfl) .typeMismatch rfl)

lemma countTypes_does (hspan : acc.d.charge (some .typeMismatch) span = 0) (position : Nat)
    (types : List Ty) : acc.Does [] 0 0 (countTypes params span position types) := by
  induction types generalizing position with
  | nil => exact .pure _
  | cons ty rest ih =>
    exact ((checkExpected_does _ ty).le hspan.le).after fun _ => ih (position + 1)

lemma countSpread_does (hspan : acc.d.charge (some .typeMismatch) span = 0) (n : Count) (ty : Ty) :
    acc.Does [] 0 (acc.d.marks span) (countSpread params n ty span) := by
  unfold countSpread
  split
  · exact ((countTypes_does hspan _ _).andPure).le (zero_le _)
  · split
    · exact .pure _
    · exact ((report_charge (.inl rfl) .invalidSpread rfl).andPure).le (acc.d.charge_le_marks _ span)

variable (h : acc.Descends)
include h

lemma countValue_does {value : ExprId} (hvalue : acc.visits value) (position : Nat) :
    acc.Does [] (acc.tree value) (acc.total value) (countValue acc.env params position value) :=
  ((visit_does hvalue _).before fun _ => (checkExpected_does _ _).andPure).le
    (h.cost_add_charge hvalue .typeMismatch rfl)

lemma countElements_does {elements : List ExprId} (helements : ∀ element ∈ elements, acc.visits element)
    (position : Nat) : acc.Does [] (elements.map acc.tree).sum (elements.map acc.total).sum
      (countElements acc.env params position elements) := by
  induction elements generalizing position with
  | nil => exact .pure _
  | cons element rest ih =>
    obtain ⟨helement, hrest⟩ := forall_mem_cons.mp helements
    exact (countValue_does h helement position).bind fun _ => (ih hrest (position + 1)).andPure

variable (hcalls : acc.calls)
include hcalls

lemma countArgument_does (harg : acc.visits arg.value) (hspares : acc.Spares arg) (n : Count) :
    acc.Does [] (acc.tree arg.value) (acc.d.marksIn arg.spans + acc.total arg.value)
      (countArgument acc.env params n arg) := by
  unfold countArgument Argument.spans
  cases hkind : arg.kind with
  | positional =>
    exact ((countValue_does h harg n.supplied).andPure).le (le_add_left _ _)
  | named name =>
    have hmarks := acc.d.charge_le_marks (some .unknownNamedArgument) name.span
    refine ((report_charge (.inr hcalls) .unknownNamedArgument rfl).andThen
      fun _ => (visitOnly_does h harg).andPure).le ?_
    simp only [marksIn_cons, marksIn_nil]
    omega
  | spread =>
    dsimp only
    split
    · rename_i elements hvalue
      obtain ⟨htree, hchildren⟩ := h.kind harg hvalue
      have hsplit : acc.tree arg.value = (elements.map acc.tree).sum + acc.one arg.value := by
        rw [htree, add_comm]
        rfl
      rw [hsplit]
      refine ((countElements_does h hchildren n.supplied).bind
        fun types => (record_does arg.value _).andPure).le ?_
      exact (children_le h harg hvalue).trans (le_add_left _ _)
    · rename_i htuple
      have hspan := charge_of_spread hspares hkind htuple .typeMismatch rfl
      refine ((visit_total h harg _).before fun ty => countSpread_does hspan n ty).le ?_
      simp only [marksIn_cons, marksIn_nil]
      omega
  | keywordSpread =>
    have hmarks := acc.d.charge_le_marks (some .invalidSpread) arg.span
    refine ((visitOnly_does h harg).before fun _ =>
      (report_charge (.inl rfl) .invalidSpread rfl).andPure).le ?_
    simp only [marksIn_cons, marksIn_nil]
    omega

lemma countArguments_does (hargs : ∀ arg ∈ args, acc.visits arg.value)
    (hspares : ∀ arg ∈ args, acc.Spares arg) :
    acc.Does [] (args.map fun arg => acc.tree arg.value).sum
      ((args.map fun arg => acc.d.marksIn arg.spans + acc.total arg.value).sum +
        acc.d.share .value span) (countArguments acc.env params args span) := by
  have hcount (n : Count) : acc.Does [] 0 (acc.d.share .value span) (reportCount params n span) := by
    unfold reportCount
    split
    · exact .pure _
    · split
      · exact report_share (.inr hcalls) .value rfl
      · exact reportIf_does (report_share (.inr hcalls) .value rfl)
  exact Does.before (.foldlM (fun n arg harg =>
    countArgument_does h hcalls (hargs arg harg) (hspares arg harg) n) _) hcount

end Counting

variable (h : acc.Descends)
include h

lemma callType_does (hcalls : acc.calls) {callee : ExprId} (hcallee : acc.visits callee)
    (hargs : ∀ arg ∈ args, acc.visits arg.value) (hspares : ∀ arg ∈ args, acc.Spares arg) :
    acc.Does [] (acc.tree callee + (args.map fun arg => acc.tree arg.value).sum)
      (acc.total callee + ((args.map fun arg => acc.d.marksIn arg.spans + acc.total arg.value).sum +
        acc.d.share .value span)) (callType acc.env callee args span) := by
  refine (resolveCallee_gives h hcallee).bind fun found htidy => ?_
  cases found with
  | bound sig result => exact (bindArguments_does h hcalls hargs hspares htidy).andPure
  | unnamed params result => exact (countArguments_does h hcalls hargs hspares).andPure
  | untracked result =>
    refine .le (Does.forM fun arg harg => visitOnly_does h (hargs arg harg)).andPure ?_
    have hargs := sum_le_sum fun (arg : Argument) (_ : arg ∈ args) =>
      le_add_left (acc.total arg.value) (acc.d.marksIn arg.spans)
    exact hargs.trans (le_add_right _ _)

omit h in
lemma nameType_does (name : String) : acc.Does [] 0 (acc.d.share .value span) (nameType name span) := by
  refine (lookupValueType_does name).after fun found => ?_
  cases found with
  | some ty => exact .pure _
  | none => exact (report_share (.inl rfl) .value rfl).andPure

/-- As a value an expression costs what belongs to its value, what stands in it, and the totals of its
children. -/
lemma valueType_does (hid : ∀ c ∈ acc.env.program.exprChildren id, acc.visits c)
    (hcalls : ∀ callee args, acc.env.exprKind id = .call callee args → acc.calls)
    (hnarrows : ∀ op target value, acc.env.exprKind id = .assign op target value → acc.narrows)
    (hint : Option Ty) :
    acc.Does [] ((acc.env.program.exprChildren id).map acc.tree).sum
      (acc.d.share .value (acc.env.exprSpan id) + acc.d.marksIn (acc.env.exprKind id).spans +
        ((acc.env.exprKind id).children.map acc.total).sum) (valueType acc.env id hint) := by
  have hchildren : acc.env.program.exprChildren id = (acc.env.exprKind id).children := rfl
  have hspares := h.spares id
  rw [hchildren] at hid ⊢
  unfold valueType
  generalize acc.env.exprKind id = kind at hid hcalls hnarrows hspares ⊢
  cases kind with
  | name name => exact nameType_does name
  | literal literal =>
    exact (literalType_does _ literal _ false).le (acc.d.charge_le_share (some .integerOutOfRange) _)
  | unary op operand =>
    simpa [children, spans, add_comm] using unaryType_does h (hid operand (.head _)) op
  | binary op left right =>
    simpa [children, spans, add_comm] using
      binaryType_does h (hid left (.head _)) (hid right (.tail _ (.head _))) op
  | assign op target value =>
    have htarget := hid target (.head _)
    have hvalue := hid value (.tail _ (.head _))
    simpa [children, spans, add_comm] using assignmentType_does h (hnarrows _ _ _ rfl) htarget hvalue op
  | call callee args =>
    obtain ⟨hcallee, hargs⟩ := forall_mem_cons.mp hid
    simp only [children, spans, marksIn_flatMap, map_cons, sum_cons, map_map, Function.comp_def]
    refine (callType_does h (hcalls _ _ rfl) hcallee (forall_mem_map.mp hargs)
      (hspares callee args rfl)).le ?_
    rw [sum_map_add]
    omega
  | member object property =>
    simp only [children, spans, marksIn_cons, marksIn_nil, map_singleton, sum_singleton]
    refine (memberType_does h (hid object (.head _)) property).le ?_
    omega
  | index object position =>
    simpa [children, spans] using
      (indexType_does h (hid object (.head _)) (hid position (.tail _ (.head _)))).le (le_add_left _ _)
  | record type fields =>
    simp only [children, spans, marksIn_cons, marksIn_map, map_map, Function.comp_def]
    refine (recordType_does h (forall_mem_map.mp hid) type).le ?_
    rw [sum_map_add]
    omega
  | array elements =>
    exact (Does.mapM fun c hc => visit_total h (hid c hc) _).andPure.le (le_add_left _ _)
  | map entries =>
    rw [sum_entries, sum_entries]
    exact (mapType_does h (entries_below hid)).le (le_add_left _ _)
  | tuple elements => exact (tupleType_does h hid).le (le_add_left _ _)
  | cast value target =>
    simp only [children, spans, map_singleton, sum_singleton]
    refine (castType_does h (hid value (.head _)) target).le ?_
    omega
  | group inner =>
    simpa [children] using (visit_total h (hid inner (.head _)) (.value hint)).le (le_add_left _ _)
  | hole => exact (report_share (.inl rfl) .value rfl).andPure

lemma targetType_does {asValue : Rule Ty}
    (hvalue : acc.Does [] ((acc.env.program.exprChildren id).map acc.tree).sum
      (acc.d.share .value (acc.env.exprSpan id) + acc.d.marksIn (acc.env.exprKind id).spans +
        ((acc.env.exprKind id).children.map acc.total).sum) asValue)
    (hid : ∀ c ∈ acc.env.program.exprChildren id, acc.visits c) :
    acc.Does [] ((acc.env.program.exprChildren id).map acc.tree).sum (acc.outlay id)
      (targetType acc.env id asValue) := by
  have hchildren : acc.env.program.exprChildren id = (acc.env.exprKind id).children := rfl
  unfold outlay
  rw [hchildren] at hid hvalue ⊢
  unfold targetType
  generalize acc.env.exprKind id = kind at hid hvalue ⊢
  cases kind with
  | name name => exact nameTarget_does name
  | member | index =>
    refine (hvalue.before fun _ => (checkRoot_does id).andPure).le ?_
    omega
  | group inner =>
    simpa [children] using (visit_total h (hid inner (.head _)) .target).le (le_add_left _ _)
  | _ =>
    refine (hvalue.before fun _ => (report_share (.inl rfl) .target rfl).andPure).le ?_
    omega

lemma expression_does (hid : ∀ c ∈ acc.env.program.exprChildren id, acc.visits c)
    (hcalls : ∀ callee args, acc.env.exprKind id = .call callee args → acc.calls)
    (hnarrows : ∀ op target value, acc.env.exprKind id = .assign op target value → acc.narrows)
    (role : Role) :
    acc.Does [] (acc.one id + ((acc.env.program.exprChildren id).map acc.tree).sum) (acc.outlay id)
      (expression acc.env role id) := by
  have hvalue (hint : Option Ty) := valueType_does h hid hcalls hnarrows hint
  have htype : acc.Does [] ((acc.env.program.exprChildren id).map acc.tree).sum (acc.outlay id)
      (roleType acc.env role id) := by
    cases role with
    | value hint =>
      refine (hvalue hint).le ?_
      unfold outlay
      omega
    | target => exact targetType_does h (hvalue none) hid
  rw [add_comm]
  exact htype.bind (l := 0) fun ty => (record_does id ty).andPure

omit h

/-- The contract for rules for expressions, over the expressions recorded so far. Only expressions in
`B` are visited, and a visit to one of them records `T` of it. -/
def visiting (T : ExprId → Multiset ExprId) (B : ExprId → Prop) :
    Contract Request (Multiset ExprId) where
  requires
    | .act action, _ => action.Mild
    | .expr _ id, _ => B id
    | .stmt _, _ => False
    | .expand active _ _ _, _ => active = []
  ensures
    | .act (.record id _), M, _, N => N = {id} + M
    | .act _, M, _, N => N = M
    | .expr _ id, M, _, N => N = T id + M
    | .stmt _, _, _, _ => True
    | .expand _ _ _ _, M, _, N => N = M

def recording : Effect (Multiset ExprId) (Multiset ExprId) where
  does K M N := N = K + M
  zero M := (zero_add M).symm
  add := by
    rintro K L M _ _ rfl rfl
    rw [← add_assoc, add_comm L K]

/-- To count the expressions that are recorded, those below an expression for each visit to it. -/
def Account.trees (env : Env) (B : ExprId → Prop) : Account (Multiset ExprId) where
  env
  visits := B
  one id := {id}
  tree := env.program.exprTree

lemma Account.trees_descends {env : Env} (htree : ∀ id, B id → env.program.ExprEnds id)
    (hchild : ∀ a b, B a → b ∈ env.program.exprChildren a → B b) : (Account.trees env B).Descends :=
  .of_nowhere rfl rfl rfl (fun id hid => (htree id hid).exprTree_eq) hchild

lemma Account.Gives.has {α : Type} {env : Env} {K : Multiset ExprId} {k : ℕ} {x : Rule α}
    {P : α → Prop} (hx : (Account.trees env B).Gives [] K k x P) :
    Steps.Has (visiting env.program.exprTree B) recording K x := by
  have hvisit (role : Role) {id : ExprId} (hid : B id) :
      Steps.Has (visiting env.program.exprTree B) recording (env.program.exprTree id) (Rule.visit role id) :=
    fun _ => ⟨hid, fun _ _ hN => hN⟩
  induction hx with
  | answer => exact .pure _
  | act action h =>
    refine fun M => ⟨.of_silent h, fun _ N hN => ?_⟩
    cases action with
    | record id ty => exact h.elim
    | _ => exact hN ▸ recording.zero M
  | expand => exact fun M => ⟨rfl, fun _ _ hN => hN ▸ recording.zero M⟩
  | visit role _ hid => exact hvisit role hid
  | record id ty => exact fun _ => ⟨trivial, fun _ _ hN => hN⟩
  | clearNarrowing name => exact fun M => ⟨trivial, fun _ _ hN => hN ▸ recording.zero M⟩
  | operands hint _ hleft hright =>
    have hcount : Steps.Has (visiting env.program.exprTree B) recording 0 (perform .diagnosticCount) :=
      fun M => ⟨trivial, fun _ _ hN => hN ▸ recording.zero M⟩
    have hhoist (start middle : Nat) :
        Steps.Has (visiting env.program.exprTree B) recording 0 (perform (.hoist start middle)) :=
      fun M => ⟨trivial, fun _ _ hN => hN ▸ recording.zero M⟩
    unfold operandTypes
    split
    -- A literal on the left is visited last.
    · rw [add_comm]
      refine hcount.after fun start => (hvisit _ hright).bind fun _ => hcount.after fun middle => ?_
      exact (hvisit _ hleft).before fun _ => (hhoist start middle).andPure
    · exact (hvisit _ hleft).bind fun _ => (hvisit _ hright).andPure
  | bind _ _ hx hf => exact hx.bind fun a => hf a fun h => h.elim
  | mono _ _ _ hx => exact hx

end Rule

def Action.Local {β : Type} : Action β → Prop
  | .fillType _ _ => True
  | action => action.Mild

lemma Action.Mild.local (h : action.Mild) : action.Local := by
  cases action with
  | fillType => trivial
  | _ => exact h

lemma Action.Resolving.local (h : action.Resolving) : action.Local := by
  cases action with
  | record | clearNarrowing | diagnosticCount | hoist => trivial
  | _ => exact h

lemma Action.Mild.recorded (h : action.Mild) (w : Outline) (T : ExprId → Multiset ExprId)
    (B : ExprId → Prop) (answer : β) :
    (visiting T B).ensures (.act action) w.recorded answer (action.outline w).recorded := by
  cases action with
  | record id ty => exact (Multiset.singleton_add id w.recorded).symm
  | declareValue | declareType => exact h.elim
  | _ => rfl

/-- Names stay as they are, declarations too, and no function is entered or left for good. -/
structure Outline.Keeps (before after : Outline) : Prop where
  declared : after.declared = before.declared
  contexts : after.contexts = before.contexts
  scopes : KeepsAll before.scopes.frames after.scopes.frames

lemma Outline.Keeps.refl (w : Outline) : w.Keeps w := ⟨rfl, rfl, .refl _⟩

lemma Outline.Keeps.trans {a b c : Outline} (hab : a.Keeps b) (hbc : b.Keeps c) : a.Keeps c :=
  ⟨hbc.declared.trans hab.declared, hbc.contexts.trans hab.contexts, hab.scopes.trans hbc.scopes⟩

lemma Action.Local.keeps (h : action.Local) (w : Outline) : w.Keeps (action.outline w) := by
  cases action with
  | clearNarrowing name => exact ⟨rfl, rfl, ScopeStack.keeps_clearNarrowing w.scopes name⟩
  | record id ty => exact ⟨rfl, rfl, .refl _⟩
  | declareValue | declareType | pushScope | popScope | narrow | noteDeclaration | enterFunction
  | leaveFunction => exact h.elim
  | _ => exact .refl w

namespace Check

variable {env : Env}

lemma visiting_fulfil (env : Env) {expr : Role → ExprId → Check Ty}
    (h : ∀ role id, B id → ∀ s, (expr role id).Meets (performing fun action _ => action.Local) s
      fun _ t => t.outline.recorded = env.program.exprTree id + s.outline.recorded) :
    Visits.Fulfil { expr, expand } (visiting env.program.exprTree B)
      (fun action _ => action.Local) (fun M s => s.outline.recorded = M) where
  act {_ action M s} hM hmild := by
    refine ⟨hmild.local, _, rfl, ?_⟩
    rw [action.outline_step, ← hM]
    exact hmild.recorded s.outline _ _ _
  expr {role id M s} hM hid := by
    refine (h role id hid s).mono fun _ t ht => ⟨_, rfl, ?_⟩
    rw [ht, hM]
    rfl
  stmt _ hfalse := hfalse.elim
  expand {active id span cyclic M s} hM hactive := by
    obtain rfl : active = [] := hactive
    refine (meets_of_allowed (expand_resolves id span cyclic s) fun _ _ h => h.local).mono ?_
    intro _ t ht
    exact ⟨_, rfl, by rw [ht, hM]; rfl⟩

/-- At a depth at which the way down from an expression ends, checking it records all of it. -/
lemma exprWithin_records {depth : Nat} (role : Role)
    (hdepth : EndsWithin env.program.exprChildren (fun _ => True) depth id)
    (hends : env.program.ExprEnds id) (s : State) :
    (exprWithin env depth role id).Meets (performing fun action _ => action.Local) s
      fun _ t => t.outline.recorded = env.program.exprTree id + s.outline.recorded := by
  induction depth generalizing id role s with
  | zero => exact hdepth.elim
  | succ depth ih =>
    let B (c : ExprId) : Prop :=
      EndsWithin env.program.exprChildren (fun _ => True) depth c ∧ env.program.ExprEnds c
    have hdescends : (Account.trees env B).Descends :=
      trees_descends (fun c hc => hc.2) fun a b ha hb => ⟨ha.1.child hb, ha.2.child hb⟩
    have hvisits := visiting_fulfil env fun role c (hc : B c) s => ih role hc.1 hc.2 s
    have hrule := expression_does hdescends (fun c hc => ⟨hdepth.2 c hc, hends.child hc⟩)
      (fun _ _ _ => trivial) (fun _ _ _ _ => trivial) role
    refine (toCheck_meets hvisits (hrule.has s.outline.recorded) rfl).mono ?_
    rintro _ t ⟨M, rfl, hM⟩
    rw [hM, hends.exprTree_eq]
    rfl

/-- Checking an expression from which the way down ends comes to an end itself. It records the whole
tree of the expression and may end the narrowing of names. -/
lemma expr_meets (h : env.program.ExprEnds id) (role : Role) (s : State) :
    (expr env role id).Meets (performing fun action _ => action.Local) s fun _ t =>
      t.outline.recorded = env.program.exprTree id + s.outline.recorded ∧
        s.outline.Keeps t.outline := by
  obtain ⟨halong, hrecorded⟩ := meets_performing_iff.mp (exprWithin_records role h h s)
  refine meets_performing_iff.mpr ⟨halong, hrecorded, ?_⟩
  refine Along.rel (R := fun s t => s.outline.Keeps t.outline) (fun _ => .refl _)
    (fun hab hbc => hab.trans hbc) ?_
  refine halong.mono fun action t hlocal => ?_
  rw [action.outline_step]
  exact hlocal.keeps t.outline

end Check

end StaticTyping
