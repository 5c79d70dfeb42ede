import StaticTyping.Proofs.Output.Frame

/-! What a written type stands for. The scopes of a state say what names mean, and an alias means a
type that it was found to have. Resolving a type expression gives a type that it stands for, and every
alias that it mentions is found on the way. -/

namespace StaticTyping

open TypeExpr Finding Primitive

def builtInType? (name : String) (args : List Ty) : Option Ty :=
  match Primitive.ofName? name with
  | some p => some (.prim p)
  | none =>
    if name = Ty.arrayName then some (.array (args[0]?.getD .unknown))
    else if name = Ty.mapName then some (.map (args[0]?.getD .unknown) (args[1]?.getD .unknown))
    else none

def isBuiltIn (name : String) : Bool := (builtInType? name []).isSome

variable {name : String} {active others : List String} {args : List Ty} {id : SymbolId}

lemma builtInType?_eq_none_iff : builtInType? name args = none ↔ isBuiltIn name = false := by
  unfold isBuiltIn builtInType?
  cases ofName? name with
  | some p => simp
  | none =>
    by_cases harray : name = Ty.arrayName
    · simp [harray]
    · by_cases hmap : name = Ty.mapName
      · simp only [if_neg harray, if_pos hmap, reduceCtorEq, Option.isSome_some, Bool.true_eq_false]
      · simp [harray, hmap]

/-- The type of a declared name, if `found` says what types aliases have. -/
def State.NameDenotes (s : State) (found : SymbolId → Ty → Prop) (name : String) (args : List Ty)
    (ty : Ty) : Prop :=
  match s.scopes.lookupType name with
  | none => ty = .error
  | some id =>
    match (s.symbols.get id).kind with
    | .typeParam => ty = .param name
    | .structType | .enumType | .classType =>
      ty = .named ⟨name, some id, (s.symbols.get id).kind == .classType⟩
        (if args.isEmpty then none else some args)
    | .typeAlias => found id ty
    | .value | .function | .variant => ty = .error

def State.AliasAmong (s : State) (names : List String) (id : SymbolId) : Prop :=
  ∃ name ∈ names, isBuiltIn name = false ∧ s.scopes.lookupType name = some id ∧
    (s.symbols.get id).kind = .typeAlias

lemma State.AliasAmong.mono {s : State} {names : List String}
    (h : s.AliasAmong names id) (hsubset : names ⊆ others) : s.AliasAmong others id := by
  obtain ⟨name, hname, hmeans⟩ := h
  exact ⟨name, hsubset hname, hmeans⟩

namespace TypeExpr

mutual

def names : TypeExpr → List String
  | .named _ name args => name :: namesAll args
  | .union _ members => namesAll members
  | .tuple _ elements => namesAll elements
  | .fn _ params result => namesAll params ++ result.names
  | .hole _ => []

def namesAll : List TypeExpr → List String
  | [] => []
  | t :: rest => t.names ++ namesAll rest

end

mutual

/-- The type expression stands for the type in the state, if `found` says what types aliases have. -/
def Denotes (s : State) (found : SymbolId → Ty → Prop) : TypeExpr → Ty → Prop
  | .named _ name args, ty => ∃ types, DenoteAll s found args types ∧
    match builtInType? name types with
    | some known => ty = known
    | none => s.NameDenotes found name types ty
  | .union _ members, ty => ∃ types, DenoteAll s found members types ∧ ty = .makeUnion types
  | .tuple _ elements, ty => ∃ types, DenoteAll s found elements types ∧ ty = .tuple types
  | .fn _ params result, ty => ∃ types returned, DenoteAll s found params types ∧
    result.Denotes s found returned ∧ ty = .fn types returned
  | .hole _, ty => ty = .error

def DenoteAll (s : State) (found : SymbolId → Ty → Prop) : List TypeExpr → List Ty → Prop
  | [], types => types = []
  | t :: rest, types => ∃ ty others, t.Denotes s found ty ∧ DenoteAll s found rest others ∧
    types = ty :: others

end

variable {s : State} {found other : SymbolId → Ty → Prop}

lemma nameDenotes_mono (h : ∀ id ty, found id ty → other id ty) {ty : Ty}
    (hname : s.NameDenotes found name args ty) : s.NameDenotes other name args ty := by
  unfold State.NameDenotes at hname ⊢
  cases hlookup : s.scopes.lookupType name with
  | none => simpa only [hlookup] using hname
  | some id =>
    cases hkind : (s.symbols.get id).kind with
    | typeAlias =>
      simp only [hlookup, hkind] at hname ⊢
      exact h id ty hname
    | typeParam | structType | enumType | classType | value | function | variant =>
      simpa only [hlookup, hkind] using hname

mutual

theorem Denotes.mono (h : ∀ id ty, found id ty → other id ty) :
    ∀ {t : TypeExpr} {ty : Ty}, t.Denotes s found ty → t.Denotes s other ty
  | .named _ name args, ty, ht => by
    obtain ⟨types, hargs, hname⟩ := ht
    refine ⟨types, .mono h hargs, ?_⟩
    split at hname
    · exact hname
    · exact nameDenotes_mono h hname
  | .union _ members, ty, ht => by
    obtain ⟨types, hmembers, hty⟩ := ht
    exact ⟨types, .mono h hmembers, hty⟩
  | .tuple _ elements, ty, ht => by
    obtain ⟨types, helements, hty⟩ := ht
    exact ⟨types, .mono h helements, hty⟩
  | .fn _ params result, ty, ht => by
    obtain ⟨types, returned, hparams, hresult, hty⟩ := ht
    exact ⟨types, returned, .mono h hparams, .mono h hresult, hty⟩
  | .hole _, ty, ht => by
    exact ht

theorem DenoteAll.mono (h : ∀ id ty, found id ty → other id ty) :
    ∀ {ts : List TypeExpr} {types : List Ty}, DenoteAll s found ts types → DenoteAll s other ts types
  | [], types, hts => by
    exact hts
  | t :: rest, types, hts => by
    obtain ⟨ty, others, ht, hrest, htypes⟩ := hts
    exact ⟨ty, others, .mono h ht, .mono h hrest, htypes⟩

end

def KnowsAll (s : State) (found : SymbolId → Ty → Prop) (names : List String) : Prop :=
  ∀ id, s.AliasAmong names id → ∃ ty, found id ty

lemma KnowsAll.append {names : List String} (h : KnowsAll s found names)
    (hothers : KnowsAll s found others) : KnowsAll s found (names ++ others) := by
  rintro id ⟨name, hname, hmeans⟩
  rcases List.mem_append.mp hname with hname | hname
  · exact h id ⟨name, hname, hmeans⟩
  · exact hothers id ⟨name, hname, hmeans⟩

lemma knowsAll_nil : KnowsAll s found [] := by
  rintro id ⟨name, hname, -⟩
  exact absurd hname List.not_mem_nil

mutual

theorem Denotes.knows : ∀ {t : TypeExpr} {ty : Ty}, t.Denotes s found ty → KnowsAll s found t.names
  | .named _ name args, ty, ht => by
    obtain ⟨types, hargs, hname⟩ := ht
    rintro id ⟨mentioned, hmentioned, hbuiltIn, hlookup, hkind⟩
    rcases List.mem_cons.mp hmentioned with rfl | hmentioned
    · simp only [builtInType?_eq_none_iff.mpr hbuiltIn, State.NameDenotes, hlookup, hkind] at hname
      exact ⟨ty, hname⟩
    · exact DenoteAll.knows hargs id ⟨mentioned, hmentioned, hbuiltIn, hlookup, hkind⟩
  | .union _ members, ty, ht => by
    obtain ⟨types, hmembers, -⟩ := ht
    exact DenoteAll.knows hmembers
  | .tuple _ elements, ty, ht => by
    obtain ⟨types, helements, -⟩ := ht
    exact DenoteAll.knows helements
  | .fn _ params result, ty, ht => by
    obtain ⟨types, returned, hparams, hresult, -⟩ := ht
    exact (DenoteAll.knows hparams).append (Denotes.knows hresult)
  | .hole _, ty, _ => knowsAll_nil

theorem DenoteAll.knows : ∀ {ts : List TypeExpr} {types : List Ty}, DenoteAll s found ts types →
      KnowsAll s found (namesAll ts)
  | [], types, _ => knowsAll_nil
  | t :: rest, types, hts => by
    obtain ⟨ty, others, ht, hrest, -⟩ := hts
    exact (Denotes.knows ht).append (DenoteAll.knows hrest)

end

end TypeExpr

namespace Rule

variable {α β : Type} {visits : Visits} {s : State}

/-- Followed from the state, the rule comes to an answer and a state as `Q` says. -/
def Ends (visits : Visits) (x : Rule α) (s : State) (Q : α → State → Prop) : Prop :=
  Q ((x.toCheck visits).run s).1 ((x.toCheck visits).run s).2

namespace Ends

variable {x : Rule α} {Q R : α → State → Prop}

protected lemma pure {a : α} (h : Q a s) : Ends visits (pure a) s Q := h

lemma perform (action : Action α) (h : Q (action.step s).1 (action.step s).2) :
    Ends visits (perform action) s Q := h

lemma mono (h : Ends visits x s Q) (hQR : ∀ a t, Q a t → R a t) : Ends visits x s R := hQR _ _ h

protected lemma and (h : Ends visits x s Q) (h' : Ends visits x s R) :
    Ends visits x s fun a t => Q a t ∧ R a t := ⟨h, h'⟩

protected lemma bind {f : α → Rule β} {R : β → State → Prop} (h : Ends visits x s Q)
    (hf : ∀ a t, Q a t → Ends visits (f a) t R) : Ends visits (x >>= f) s R := by
  unfold Ends at h ⊢
  rw [toCheck_bind, Check.run_bind]
  exact hf _ _ h

/-- An action is carried out at once, and the rest goes on from there. -/
lemma act (action : Action α) {a : α} {t : State} {f : α → Rule β} {R : β → State → Prop}
    (hstep : action.step s = (a, t)) (h : Ends visits (f a) t R) :
    Ends visits (Rule.perform action >>= f) s R :=
  .bind (Q := fun b u => (b, u) = (a, t)) hstep (by rintro _ _ ⟨⟩; exact h)

/-- A loop, with an invariant that says what is left to do. -/
protected lemma forM {f : β → Rule Unit} {P : List β → State → Prop}
    (hstep : ∀ b rest t, P (b :: rest) t → Ends visits (f b) t fun _ => P rest) {xs : List β}
    (h : P xs s) : Ends visits (xs.forM f) s fun _ => P [] := by
  induction xs generalizing s with
  | nil => exact .pure h
  | cons b rest ih => exact (hstep b rest s h).bind fun _ _ ht => ih ht

lemma expand {span : Span} {cyclic : Cyclic} {Q : Ty × Cyclic → State → Prop}
    (h : Q ((visits.expand active id span cyclic).run s).1
      ((visits.expand active id span cyclic).run s).2) :
    Ends visits (Steps.lift (.expand active id span cyclic)) s Q := by
  have hlift : Rule.toCheck visits (.lift (.expand active id span cyclic)) =
      visits.expand active id span cyclic := Steps.bind_done _
  unfold Ends
  rw [hlift]
  exact h

end Ends

end Rule

/-- How far the resolution of a type has come: the names known to lie on a cycle, and the state. -/
abbrev Progress := Cyclic × State

def State.reporting (s : State) (finding : Finding) (span : Span) : State :=
  { s with diagnostics := s.diagnostics.push (finding.toDiagnostic span) }

/-- Resolution goes on as `Later` says, under which names and what was found about aliases keep. -/
structure Course (Later : Progress → Progress → Prop) (Found : SymbolId → Ty → Progress → Prop) :
    Prop where
  refl (w : Progress) : Later w w
  trans {u v w : Progress} : Later u v → Later v w → Later u w
  report (w : Progress) {finding : Finding} (hcode : finding.code ≠ .aliasCycle) (span : Span) :
    Later w (w.1, w.2.reporting finding span)
  scopes {u v : Progress} : Later u v → v.2.scopes = u.2.scopes
  kind {u v : Progress} : Later u v → ∀ id, (v.2.symbols.get id).kind = (u.2.symbols.get id).kind
  found {u v : Progress} {id : SymbolId} {ty : Ty} : Later u v → Found id ty u → Found id ty v

/-- From anywhere on the way, the expansion of each alias among the names goes on and finds it. -/
def Expands (visits : Visits) (active : List String) (Later : Progress → Progress → Prop)
    (Found : SymbolId → Ty → Progress → Prop) (start : Progress) (names : List String) : Prop :=
  ∀ (w : Progress) (id : SymbolId) (span : Span), Later start w → start.2.AliasAmong names id →
    Later w (((visits.expand active id span w.1).run w.2).1.2,
      ((visits.expand active id span w.1).run w.2).2) ∧
    Found id ((visits.expand active id span w.1).run w.2).1.1
      (((visits.expand active id span w.1).run w.2).1.2,
        ((visits.expand active id span w.1).run w.2).2)

variable {Later : Progress → Progress → Prop} {Found : SymbolId → Ty → Progress → Prop}
  {visits : Visits} {start : Progress}

lemma Expands.mono {names : List String}
    (h : Expands visits active Later Found start names) (hsubset : others ⊆ names) :
    Expands visits active Later Found start others :=
  fun w id span hw hid => h w id span hw (hid.mono hsubset)

lemma Expands.head {names : List String}
    (h : Expands visits active Later Found start (name :: names)) :
    Expands visits active Later Found start [name] :=
  h.mono (by simp)

namespace Rule

variable {visits : Visits} {active : List String} {Later : Progress → Progress → Prop}
  {Found : SymbolId → Ty → Progress → Prop} {start : Progress}

variable (hcourse : Course Later Found) {w : Progress}

include hcourse

lemma checkArity_later (name : String) (expected given : Nat) (span : Span) (w : Progress) :
    Ends visits (checkArity name expected given span) w.2 fun _ t => Later w (w.1, t) := by
  unfold checkArity reportIf
  split
  · exact hcourse.report w (by simp [code]) span
  · exact hcourse.refl w

lemma declaredType_denotes (hbuiltIn : isBuiltIn name = false)
    (hexpand : Expands visits active Later Found start [name]) (args : List Ty) (span : Span)
    (hw : Later start w) :
    Ends visits (declaredType active name args span w.1) w.2 fun r t => Later w (r.2, t) ∧
      start.2.NameDenotes (fun id ty => Found id ty (r.2, t)) name args r.1 := by
  have hread : w.2.scopes.lookupType name = start.2.scopes.lookupType name := by
    rw [hcourse.scopes hw]
  refine .act (.lookupType name) (congrArg (·, w.2) hread) ?_
  unfold State.NameDenotes
  cases hlookup : start.2.scopes.lookupType name with
  | none => exact ⟨hcourse.report w (by simp [code]) span, rfl⟩
  | some id =>
    refine (Ends.perform (.readSymbol id) (Q := fun declared t =>
      declared.kind = (start.2.symbols.get id).kind ∧ t = w.2) ⟨hcourse.kind hw id, rfl⟩).bind ?_
    rintro declared _ ⟨hdeclared, rfl⟩
    simp only [hdeclared]
    cases hkind : (start.2.symbols.get id).kind with
    | typeParam | structType | enumType | classType =>
      exact (checkArity_later hcourse name _ args.length span w).bind fun _ t ht => .pure ⟨ht, rfl⟩
    | typeAlias =>
      refine (checkArity_later hcourse name 0 args.length span w).bind fun _ t ht => .expand ?_
      have hfound := hexpand (w.1, t) id span (hcourse.trans hw ht)
        ⟨name, List.mem_singleton.mpr rfl, hbuiltIn, hlookup, hkind⟩
      exact ⟨hcourse.trans ht hfound.1, hfound.2⟩
    | value | function | variant => exact ⟨hcourse.report w (by simp [code]) span, rfl⟩

lemma namedType_denotes (hexpand : Expands visits active Later Found start [name])
    (args : List Ty) (span : Span) (hw : Later start w) :
    Ends visits (namedType active name args span w.1) w.2 fun r t => Later w (r.2, t) ∧
      match builtInType? name args with
      | some known => r.1 = known
      | none => start.2.NameDenotes (fun id ty => Found id ty (r.2, t)) name args r.1 := by
  have harity (expected : Nat) {ty : Ty} (hknown : builtInType? name args = some ty) :
      Ends visits (do checkArity name expected args.length span; return (ty, w.1)) w.2 fun r t =>
        Later w (r.2, t) ∧
          match builtInType? name args with
          | some known => r.1 = known
          | none => start.2.NameDenotes (fun id ty => Found id ty (r.2, t)) name args r.1 := by
    simp only [hknown]
    exact (checkArity_later hcourse name expected args.length span w).bind fun _ t ht =>
      .pure ⟨ht, rfl⟩
  unfold namedType
  cases hprim : ofName? name with
  | some p => exact harity 0 (by simp [builtInType?, hprim])
  | none =>
    by_cases harray : name = Ty.arrayName
    · simp only [if_pos harray]
      exact harity 1 (by simp only [builtInType?, hprim, if_pos harray])
    · by_cases hmap : name = Ty.mapName
      · simp only [if_neg harray, if_pos hmap]
        exact harity 2 (by simp only [builtInType?, hprim, if_neg harray, if_pos hmap])
      · have hnone : builtInType? name args = none := by simp [builtInType?, hprim, harray, hmap]
        simp only [if_neg harray, if_neg hmap, hnone]
        exact declaredType_denotes hcourse (builtInType?_eq_none_iff.mp hnone) hexpand args span hw

omit hcourse

mutual

theorem resolveIn_denotes (hcourse : Course Later Found) : ∀ (t : TypeExpr) {w : Progress},
    Expands visits active Later Found start t.names → Later start w →
    Ends visits (resolveIn active t w.1) w.2 fun r after => Later w (r.2, after) ∧
      t.Denotes start.2 (fun id ty => Found id ty (r.2, after)) r.1
  | .named span name args, w, hexpand, hw => by
    have hargs := resolveAllIn_denotes hcourse args (hexpand.mono (List.subset_cons_self _ _)) hw
    refine hargs.bind fun r t ht => ?_
    have hname := namedType_denotes hcourse hexpand.head r.1 span (hcourse.trans hw ht.1)
    refine hname.mono fun r' t' ht' => ⟨hcourse.trans ht.1 ht'.1, ?_⟩
    exact ⟨r.1, ht.2.mono fun _ _ hfound => hcourse.found ht'.1 hfound, ht'.2⟩
  | .union _ members, w, hexpand, hw => by
    refine (resolveAllIn_denotes hcourse members hexpand hw).bind fun r t ht => .pure ⟨ht.1, ?_⟩
    exact ⟨r.1, ht.2, rfl⟩
  | .tuple _ elements, w, hexpand, hw => by
    refine (resolveAllIn_denotes hcourse elements hexpand hw).bind fun r t ht => .pure ⟨ht.1, ?_⟩
    exact ⟨r.1, ht.2, rfl⟩
  | .fn _ params result, w, hexpand, hw => by
    have hparams := resolveAllIn_denotes hcourse params
      (hexpand.mono (List.subset_append_left _ _)) hw
    refine hparams.bind fun r t ht => ?_
    have hresult := resolveIn_denotes hcourse result
      (hexpand.mono (List.subset_append_right _ _)) (hcourse.trans hw ht.1)
    refine hresult.bind fun r' t' ht' => .pure ⟨hcourse.trans ht.1 ht'.1, ?_⟩
    exact ⟨r.1, r'.1, ht.2.mono fun _ _ hfound => hcourse.found ht'.1 hfound, ht'.2, rfl⟩
  | .hole span, w, _, _ => by
    exact ⟨hcourse.report w (by simp [code]) span, rfl⟩

theorem resolveAllIn_denotes (hcourse : Course Later Found) : ∀ (ts : List TypeExpr) {w : Progress},
    Expands visits active Later Found start (namesAll ts) → Later start w →
    Ends visits (resolveAllIn active ts w.1) w.2 fun r after => Later w (r.2, after) ∧
      DenoteAll start.2 (fun id ty => Found id ty (r.2, after)) ts r.1
  | [], w, _, _ => by
    exact .pure ⟨hcourse.refl w, rfl⟩
  | t :: rest, w, hexpand, hw => by
    have hfirst := resolveIn_denotes hcourse t (hexpand.mono (List.subset_append_left _ _)) hw
    refine hfirst.bind fun r after hr => ?_
    have hrest := resolveAllIn_denotes hcourse rest
      (hexpand.mono (List.subset_append_right _ _)) (hcourse.trans hw hr.1)
    refine hrest.bind fun r' after' hr' => .pure ⟨hcourse.trans hr.1 hr'.1, ?_⟩
    exact ⟨r.1, r'.1, hr.2.mono fun _ _ hfound => hcourse.found hr'.1 hfound, hr'.2, rfl⟩

end

end Rule

end StaticTyping
