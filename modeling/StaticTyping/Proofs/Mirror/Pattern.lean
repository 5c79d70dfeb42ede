import StaticTyping.Proofs.Mirror.Expr
import StaticTyping.Proofs.Mirror.Declaration

/-! Patterns and narrowing side by side. -/

namespace StaticTyping

open Coverage List Option

variable {g f : Option MatchedEnum}

structure MatchedEnum.Mirrors (m : Pairing) (a b : MatchedEnum) : Prop where
  symbol : m.symbols a.symbol b.symbol
  σ : a.σ.Mirrors m b.σ

inductive Coverage.Mirrors (m : Pairing) : Coverage → Coverage → Prop
  | catchAll : Mirrors m .catchAll .catchAll
  | variant {i j : SymbolId} (h : m.symbols i j) : Mirrors m (.variant i) (.variant j)
  | literal : Mirrors m .literal .literal
  | invalid : Mirrors m .invalid .invalid

structure Narrowing.Mirrors (m : Pairing) (a b : Narrowing) : Prop where
  name : a.name = b.name
  consequent : a.consequent.Mirrors m b.consequent
  alternative : a.alternative.Mirrors m b.alternative

lemma Narrowing.ofType?_mirrors {m : Pairing} (name : String) (holdsForNull : Bool) {x y : Ty}
    (h : x.Mirrors m y) : Rel (Narrowing.Mirrors m) (Narrowing.ofType? name holdsForNull x)
      (Narrowing.ofType? name holdsForNull y) := by
  unfold Narrowing.ofType?
  rw [h.isAbsorbing]
  split
  · exact .none
  · split
    · exact .some ⟨rfl, .prim _, h.removeNull⟩
    · exact .some ⟨rfl, h.removeNull, .prim _⟩

namespace Coverage.Mirrors

variable {m : Pairing} {xs ys : List Coverage}

lemma contains_eq (h : Forall₂ (Mirrors m) xs ys) {a b : Coverage}
    (hab : a.Mirrors m b) : xs.contains a = ys.contains b := by
  have hbeq : ∀ {x y : Coverage}, x.Mirrors m y → (a == x) = (b == y) := by
    intro x y hxy
    cases hab with
    | variant hij =>
      cases hxy with
      | variant hkl =>
        have heq := Relator.rel_eq m.symbols_unique hij hkl
        simpa using heq
      | _ => rfl
    | _ => cases hxy <;> rfl
  simp only [contains_eq_any_beq]
  exact forall₂_any h fun _ _ hxy => hbeq hxy

lemma uncovered (h : Forall₂ (Mirrors m) xs ys) {is js : List SymbolId}
    (hij : Forall₂ m.symbols is js) :
    Forall₂ m.symbols (Coverage.uncovered is xs) (Coverage.uncovered js ys) := by
  unfold Coverage.uncovered
  rw [contains_eq h .catchAll, contains_eq h .invalid]
  split
  · exact .nil
  · refine rel_filter (fun i j hij => ?_) hij
    dsimp only
    rw [contains_eq h (.variant hij)]

end Coverage.Mirrors

namespace Rule

lemma run_enumOf? (visits : Visits) (ty : Ty) (s : State) :
    ((enumOf? ty).toCheck visits).run s = ((((enumOf? ty).toCheck visits).run s).1, s) := by
  cases ty with
  | named head args =>
    obtain ⟨name, symbol, aliasable⟩ := head
    cases symbol <;> rfl
  | _ => rfl

lemma run_enumsOf (visits : Visits) (types : List Ty) (s : State) :
    ((types.mapM enumOf?).toCheck visits).run s =
      (types.map fun ty => (((enumOf? ty).toCheck visits).run s).1, s) := by
  induction types with
  | nil => rfl
  | cons ty types ih =>
    rw [mapM_cons, toCheck_bind, Check.run_bind, run_enumOf?, toCheck_bind, Check.run_bind, ih]
    rfl

end Rule

namespace Mirror

open Rule

variable {m : Mirror} {env env' : Env} (T : Twins m env env') {v w : Visits}
  {E : TypeExpr → TypeExpr → Prop} {c : Names} {cs : List Names} {a b : Ty}

lemma valueSymbol_mirrors (name : String) (span : Span) (isMutable isConst isParameter : Bool)
    (hab : a.Mirrors m b) : Symbol.Mirrors m E True
      { name, kind := .value, span, ty := some a, isMutable, isConst, isParameter }
      { name, kind := .value, span, ty := some b, isMutable, isConst, isParameter } :=
  newSymbol_mirrors .nil .nil (.some hab) .none

include T

lemma findNarrowing_agrees {condition : ExprId} (hid : T.exprs c condition) :
    m.Rules v w E cs (findNarrowing env.program condition)
      (findNarrowing env'.program condition) (Rel (Narrowing.Mirrors m)) := by
  unfold findNarrowing
  rw [← T.alike.nullCondition?]
  cases hcondition : env.program.nullCondition? condition with
  | none => exact .pure .none
  | some found =>
    obtain ⟨name, holdsForNull⟩ := found
    refine .andPure (lookupValueType_agrees (T.nullCondition hid hcondition)) fun x y hxy => ?_
    cases hxy with
    | none => exact .none
    | some h => exact Narrowing.ofType?_mirrors name holdsForNull h

omit T in
/-- Locals are never declared in the outermost scope. -/
lemma declareLocal_agrees (hcs : 1 < cs.length) (name : String) (hab : a.Mirrors m b)
    (span : Span) : m.Rules v w E cs (declareLocal name a span) (declareLocal name b span) Both :=
  introduce_agrees (valueSymbol_mirrors name span false false false hab) rfl rfl (.inr hcs)

omit T in
lemma enumOf?_agrees (hab : a.Mirrors m b) : m.Rules v w E cs (enumOf? a) (enumOf? b)
      (Rel fun x y => m.symbols x.1 y.1 ∧ Rel (Forall₂ (Ty.Mirrors m)) x.2 y.2) := by
  have hnamed : ∀ {name : String} {aliasable : Bool} {i j : Option SymbolId}
      {xs ys : Option (List Ty)}, Rel m.symbols i j →
      Rel (Forall₂ (Ty.Mirrors m)) xs ys →
      m.Rules v w E cs (enumOf? (.named ⟨name, i, aliasable⟩ xs))
        (enumOf? (.named ⟨name, j, aliasable⟩ ys))
        (Rel fun x y => m.symbols x.1 y.1 ∧ Rel (Forall₂ (Ty.Mirrors m)) x.2 y.2) := by
    intro name aliasable i j xs ys hij hxs
    cases hij with
    | none => exact .pure .none
    | some hij =>
      refine .andPure (symbol_agrees hij) fun x y hxy => ?_
      rw [hxy.kind]
      split
      · exact .some ⟨hij, hxs⟩
      · exact .none
  cases hab with
  | bare hij => exact hnamed hij .none
  | named hij hxs => exact hnamed hij (.some hxs)
  | prim | union | tuple | fn | param | error | unknown => exact .pure .none

omit T in
lemma enumsOf_agrees {xs ys : List Ty} (h : Ty.Matched m xs ys) :
    m.Rules v w E cs (xs.mapM enumOf?) (ys.mapM enumOf?) fun us vs =>
      ∃ vs', Forall₂ (Rel fun x y => m.symbols x.1 y.1 ∧
        Rel (Forall₂ (Ty.Mirrors m)) x.2 y.2) us vs' ∧ vs'.Perm vs := by
  obtain ⟨zs, hzs, hr⟩ := h
  intro s t hst
  have hpointwise : m.Rules v w E cs (xs.mapM enumOf?) (zs.mapM enumOf?) _ :=
    .mapM hzs fun _ _ h => enumOf?_agrees h
  obtain ⟨hanswers, hstates, hadds⟩ := hpointwise s t hst
  rw [run_enumsOf w zs] at hanswers hstates hadds
  rw [run_enumsOf w ys]
  exact ⟨⟨_, hanswers, hr.perm.map _⟩, hstates, hadds⟩

omit T in
lemma subjectEnum_agrees (hab : a.Mirrors m b) : m.Rules v w E cs (subjectEnum a) (subjectEnum b)
      (Rel (MatchedEnum.Mirrors m)) := by
  refine .bind (enumsOf_agrees hab.unionMembers) ?_
  rintro xs ys ⟨zs, hxs, hperm⟩
  have hfound : Forall₂ (fun x y => m.symbols x.1 y.1 ∧
      Rel (Forall₂ (Ty.Mirrors m)) x.2 y.2) (xs.filterMap fun x => x)
      (zs.filterMap fun y => y) := rel_filterMap (fun _ _ h => h) hxs
  have hsame : (zs.filterMap fun y => y).Perm (ys.filterMap fun y => y) := hperm.filterMap _
  generalize xs.filterMap (fun x => x) = found at hfound
  generalize zs.filterMap (fun y => y) = found' at hfound hsame
  generalize ys.filterMap (fun y => y) = found'' at hsame
  cases hfound with
  | nil =>
    rw [nil_perm.mp hsame]
    exact .pure .none
  | @cons x y _ _ hxy hrest =>
    obtain ⟨i, args⟩ := x
    obtain ⟨j, args'⟩ := y
    cases hrest with
    | nil =>
      rw [perm_singleton.mp hsame.symm]
      refine .andPure (symbol_agrees hxy.1) fun x y h => ?_
      exact .some ⟨hxy.1, .ofArgs h.typeParams hxy.2⟩
    | cons =>
      match found'', hsame.length_eq with
      | _ :: _ :: _, _ => exact .pure .none

omit T in
lemma declareBindings_agrees (hcs : 1 < cs.length) {σ τ : Substitution} (hσ : σ.Mirrors m τ)
    {xs ys : List Ty} (hxs : Forall₂ (Ty.Mirrors m) xs ys) (bindings : List Ident) :
    m.Rules v w E cs (declareBindings σ xs bindings) (declareBindings τ ys bindings) Both := by
  induction bindings generalizing xs ys with
  | nil => exact .pure trivial
  | cons binding rest ih =>
    have hty : Ty.Mirrors m ((xs.head?.map (.substitute σ)).getD .unknown)
        ((ys.head?.map (.substitute τ)).getD .unknown) :=
      hxs.casesOn .unknown fun h _ => h.substitute hσ
    have htail : Forall₂ (Ty.Mirrors m) xs.tail ys.tail := hxs.casesOn .nil fun _ h => h
    exact .andThen (declareLocal_agrees hcs binding.name hty binding.span) fun _ _ => ih htail

omit T in
lemma checkOwner_agrees {x y : Symbol} {full : Prop} (hxy : x.Mirrors m E full y)
    (hfg : Rel (MatchedEnum.Mirrors m) f g) (span : Span) :
    m.Rules v w E cs (checkOwner x f span) (checkOwner y g span) (· = ·) := by
  cases hfg with
  | none => exact .pure rfl
  | @some f g h =>
    simp only [checkOwner, rel_eq_some_iff m.symbols_unique hxy.owner h.symbol]
    split
    · exact .pure rfl
    · refine .bind (symbol_agrees h.symbol) fun a b hab => ?_
      refine .andThen (report_agrees span rfl rfl fun he => ?_) fun _ _ => .pure rfl
      rw [hxy.exactName he, hab.exactName he]

omit T in
lemma variantPattern_agrees (hcs : 1 < cs.length) {i j : SymbolId} (hij : m.symbols i j)
    (bindings : List Ident) (span : Span) (hfg : Rel (MatchedEnum.Mirrors m) f g) :
    m.Rules v w E cs (variantPattern i bindings span f)
      (variantPattern j bindings span g) (Mirrors m) := by
  refine .bind (symbol_agrees hij) fun x y hxy => ?_
  refine .bind (checkOwner_agrees hxy hfg span) ?_
  rintro belongs _ rfl
  have hσ : Substitution.Mirrors m ((f.map (·.σ)).getD .empty)
      ((g.map (·.σ)).getD .empty) := rel_elim hfg .empty fun _ _ h => h.σ
  rw [hxy.payload.length_eq]
  refine .andThen (reportIf_agrees span rfl rfl rfl fun he => by rw [hxy.exactName he])
    fun _ _ => ?_
  refine .andThen (declareBindings_agrees hcs hσ hxy.payload bindings) fun _ _ => .pure ?_
  split
  · exact .variant hij
  · exact .invalid

omit T in
lemma namePattern_agrees (hcs : 1 < cs.length) {name : String} (hname : m.values name) (span : Span)
    (hab : a.Mirrors m b) (hfg : Rel (MatchedEnum.Mirrors m) f g) :
    m.Rules v w E cs (namePattern name span a f) (namePattern name span b g) (Mirrors m) := by
  have hlocal : m.Rules v w E cs (declareLocal name a span >>= fun _ => pure catchAll)
      (declareLocal name b span >>= fun _ => pure catchAll)
      (Mirrors m) :=
    .andThen (declareLocal_agrees hcs name hab span) fun _ _ => .pure .catchAll
  refine .bind (lookupValue_agrees hname) fun found found' hfound => ?_
  cases hfound with
  | none => exact hlocal
  | some hij =>
    refine .bind (symbol_agrees hij) fun x y hxy => ?_
    rw [hxy.kind]
    split
    · exact variantPattern_agrees hcs hij [] span hfg
    · exact hlocal

lemma checkPattern_agrees (hcs : 1 < cs.length) {pattern : Pattern}
    (hname : ∀ name ∈ pattern.name?, m.values name) (hab : a.Mirrors m b)
    (hfg : Rel (MatchedEnum.Mirrors m) f g) :
    m.Rules v w E cs (checkPattern env.options pattern a f)
      (checkPattern env'.options pattern b g) (Mirrors m) := by
  unfold checkPattern
  unfold Pattern.name? at hname
  generalize pattern.kind = kind at hname
  cases kind with
  | wildcard => exact .pure .catchAll
  | name name => exact namePattern_agrees hcs (hname name rfl) pattern.span hab hfg
  | literal literal =>
    refine .bind (literalType_agrees T literal (.some hab) pattern.span false) fun x y hxy => ?_
    rw [hxy.assignable_eq hab]
    split
    · exact .pure .literal
    · refine .andThen (report_agrees _ rfl rfl fun h => ?_) fun _ _ => .pure .invalid
      unfold Finding.message
      simp only [Text.same h hab, Text.same h hxy]
  | variant name bindings =>
    refine .bind (lookupValue_agrees (hname name.name rfl)) fun found found' hfound => ?_
    cases hfound with
    | none =>
      refine .andThen (reportSame_agrees name.span rfl) fun _ _ => ?_
      exact .andThen (declareBindings_agrees hcs .empty .nil bindings) fun _ _ =>
        .pure .invalid
    | some hij =>
      refine .bind (symbol_agrees hij) fun x y hxy => ?_
      rw [hxy.kind]
      split
      · exact variantPattern_agrees hcs hij bindings name.span hfg
      · refine .andThen (reportSame_agrees name.span rfl) fun _ _ => ?_
        exact .andThen (declareBindings_agrees hcs .empty .nil bindings) fun _ _ =>
          .pure .invalid

lemma checkExhaustive_agrees (hfg : Rel (MatchedEnum.Mirrors m) f g) {xs ys : List Coverage}
    (hxs : Forall₂ (Mirrors m) xs ys) (span : Span) :
    m.Rules v w E cs (checkExhaustive f xs span) (checkExhaustive g ys span) Both := by
  cases hfg with
  | none => exact .pure trivial
  | some h =>
    refine .bind (symbol_agrees h.symbol) fun x y hxy => ?_
    have hleft := Mirrors.uncovered hxs (hxy.variants (T.full _))
    have hread : m.Rules v w E cs ((Coverage.uncovered x.variants xs).mapM symbol)
        ((Coverage.uncovered y.variants ys).mapM symbol)
        (Forall₂ fun x y => m.exact → x.name = y.name) :=
      Leads.mapM hleft fun i j hij => Leads.mono (symbol_agrees hij) fun _ _ h => h.exactName
    refine .bind hread fun left left' hleft => ?_
    have hempty : (left.map (·.name)).isEmpty = (left'.map (·.name)).isEmpty := by
      rw [isEmpty_map, isEmpty_map, forall₂_isEmpty hleft]
    refine reportIf_agrees span (by rw [hempty]) rfl rfl fun he => ?_
    have hnames : left.map (·.name) = left'.map (·.name) := by
      rw [← forall₂_eq_eq_eq]
      exact rel_map (fun _ _ h => h he) hleft
    rw [hnames, hxy.exactName he]

end Mirror

end StaticTyping
