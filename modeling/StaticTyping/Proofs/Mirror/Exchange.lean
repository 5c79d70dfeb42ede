import StaticTyping.Proofs.Aliases.Expansion
import StaticTyping.Proofs.Mirror.Types
import StaticTyping.Proofs.Relation

/-! Members of a written union that may change places. One of the two says the same whatever aliases
turn out to be, so that it makes no difference whether it is resolved before the other or after it; and
of the types that they stand for it does not matter which comes first. -/

namespace StaticTyping

open Ty State Primitive Diagnostics Check Option Rule

variable {name : String} {ty : Ty} {args : List Ty}

/-- What names of types may stand for. -/
abbrev NameKinds := String → SymbolKind → Prop

/-- The name stands for a type of its own: it is built in, or neither an alias nor a type parameter. -/
def NameKinds.Own (kinds : NameKinds) (name : String) : Prop :=
  isBuiltIn name = true ∨ ¬kinds name .typeAlias ∧ ¬kinds name .typeParam

def State.NamesWithin (s : State) (kinds : NameKinds) : Prop :=
  ∀ {name id}, s.scopes.lookupType name = some id → kinds name (s.symbols.get id).kind

namespace TypeExpr

variable (kinds : NameKinds)

/-- The outline of what the type expression stands for, if it is a type of its own. -/
def outline? : TypeExpr → Option Ty.Outline
  | .named _ name _ =>
    match ofName? name with
    | some p => some (.prim p)
    | none => some (.named name)
  | .tuple _ _ => some .tuple
  | .fn _ _ _ => some .fn
  | .hole _ => some .error
  | .union _ _ => none

def isInert (t : TypeExpr) : Bool :=
  match t.outline? with
  | some (.prim p) => !p.isNumeric
  | some .error => true
  | _ => false

/-- The type expression is no union, and its outermost name is that of a type of its own. -/
def IsOwn : TypeExpr → Prop
  | .named _ name _ => kinds.Own name
  | .union _ _ => False
  | .tuple _ _ | .fn _ _ _ | .hole _ => True

/-- There is no union in the type expression, and all its names are those of types of their own. -/
inductive Closed : TypeExpr → Prop
  | named {span : Span} {name : String} {args : List TypeExpr} (hname : kinds.Own name)
      (hargs : ∀ t ∈ args, Closed t) : Closed (.named span name args)
  | tuple {span : Span} {elements : List TypeExpr} (h : ∀ t ∈ elements, Closed t) :
      Closed (.tuple span elements)
  | fn {span : Span} {params : List TypeExpr} {result : TypeExpr} (hparams : ∀ t ∈ params, Closed t)
      (hresult : Closed result) : Closed (.fn span params result)
  | hole (span : Span) : Closed (.hole span)

def AvoidsAliases (t : TypeExpr) : Prop :=
  ∀ name ∈ t.names, isBuiltIn name = true ∨ ¬kinds name .typeAlias

/-- The type expressions stand for types of their own which are not both integers, nor both floats, and
which differ in outline or can be compared as they are written. -/
structure Told (x y : TypeExpr) : Prop where
  left : x.IsOwn kinds
  right : y.IsOwn kinds
  integers {p q : Primitive} : x.outline? = some (.prim p) → y.outline? = some (.prim q) →
    p.isInteger = true → q.isInteger = false
  floats {p q : Primitive} : x.outline? = some (.prim p) → y.outline? = some (.prim q) →
    p.isFloat = true → q.isFloat = false
  differ : x.outline? ≠ y.outline? ∨ x.Closed kinds ∧ y.Closed kinds

structure Exchangeable (x y : TypeExpr) : Prop where
  aliases : x.AvoidsAliases kinds ∨ y.AvoidsAliases kinds
  told : x.isInert = true ∨ y.isInert = true ∨ Told kinds x y

end TypeExpr

namespace Ty

variable {heads : String → TypeHead} {a b : Ty}

/-- Each name in the type stands for one and the same declaration. -/
abbrev Headed (heads : String → TypeHead) (t : Ty) : Prop :=
  t.Everywhere fun x => ∀ head ∈ x.head?, head = heads head.name

/-- Without unions and type parameters, types are the same only if they are equal, as long as a name
stands for one declaration. -/
lemma eq_of_same_of_headed (hrigid : a.Rigid) (ha : a.Headed heads) (hb : b.Headed heads)
    (h : same a b) : a = b := by
  induction a using partsInduction generalizing b with
  | h a ih =>
    have hall : ∀ xs ys : List Ty, (∀ x ∈ xs, x ∈ a.parts) → (∀ y ∈ ys, y ∈ b.parts) →
        List.Forall₂ (same · ·) xs ys → xs = ys := by
      intro xs ys hxs hys h
      induction h with
      | nil => rfl
      | cons hxy _ ih' =>
        rw [ih _ (hxs _ (.head _)) (hrigid.inside _ (hxs _ (.head _))) (ha.inside _ (hxs _ (.head _)))
          (hb.inside _ (hys _ (.head _))) hxy,
          ih' (fun x hx => hxs x (.tail _ hx)) fun y hy => hys y (.tail _ hy)]
    have hhead : ∀ {x y : TypeHead} {args args' : Option (List Ty)}, a = .named x args →
        b = .named y args' → x.name = y.name → x = y := by
      rintro x y args args' rfl rfl hname
      rw [ha.here x rfl, hb.here y rfl, hname]
    cases same_iff_alike.mp h with
    | prim | error | unknown | param => rfl
    | bare hname => rw [hhead rfl rfl hname]
    | @named _ _ xs ys hname hargs =>
      rw [hhead rfl rfl hname, hall xs ys (fun _ hx => hx) (fun _ hy => hy) hargs]
    | union => exact absurd hrigid.here (by simp [outline?])
    | @tuple xs ys helements =>
      rw [hall xs ys (fun _ hx => hx) (fun _ hy => hy) helements]
    | @fn ps qs _ _ hparams hresult =>
      rw [hall ps qs (fun _ hx => .tail _ hx) (fun _ hy => .tail _ hy) hparams,
        ih _ (.head _) (hrigid.inside _ (.head _)) (ha.inside _ (.head _)) (hb.inside _ (.head _))
          hresult]

end Ty

def State.headOf (s : State) (name : String) : TypeHead :=
  if name = arrayName ∨ name = mapName then ⟨name, none, true⟩
  else ⟨name, s.scopes.lookupType name,
    (s.scopes.lookupType name).any fun id => (s.symbols.get id).kind == .classType⟩

variable {kinds : NameKinds} {s : State} {α : Type} {visits : Visits} {active : List String}

namespace TypeExpr

variable {found : SymbolId → Ty → Prop}

lemma outline?_of_builtInType? {span : Span} {written : List TypeExpr}
    (h : builtInType? name args = some ty) :
    ty.outline? = (TypeExpr.named span name written).outline? := by
  unfold builtInType? at h
  cases hprim : ofName? name with
  | some p =>
    simp only [hprim, some.injEq] at h
    simp [← h, outline?, Ty.outline?, hprim]
  | none =>
    simp only [hprim] at h
    split at h
    · next hname =>
      obtain rfl := some.inj h
      simp [Ty.array, Ty.outline?, outline?, hprim, ← hname]
    · split at h
      · next hname =>
        obtain rfl := some.inj h
        simp [Ty.map, Ty.outline?, outline?, hprim, ← hname]
      · simp at h

lemma ofName?_eq_none (h : builtInType? name args = none) : ofName? name = none := by
  cases hprim : ofName? name with
  | none => rfl
  | some p => simp [builtInType?, hprim] at h

/-- A name that stands for a type of its own, and is not built in, is that of a declaration with its own
head or an error. -/
lemma nameDenotes_own (hs : s.NamesWithin kinds) (hname : kinds.Own name)
    (hbuiltIn : isBuiltIn name = false) (h : s.NameDenotes found name args ty) :
    ty = .error ∨ ty = .named (s.headOf name) (if args.isEmpty then none else some args) := by
  obtain ⟨halias, hparam⟩ := hname.resolve_left (by simp [hbuiltIn])
  have hother : ¬(name = arrayName ∨ name = mapName) := by
    rintro (rfl | rfl)
    · exact absurd hbuiltIn (by decide)
    · exact absurd hbuiltIn (by decide)
  unfold NameDenotes at h
  cases hlookup : s.scopes.lookupType name with
  | none =>
    simp only [hlookup] at h
    exact .inl h
  | some id =>
    have hkinds := hs hlookup
    simp only [hlookup] at h
    cases hkind : (s.symbols.get id).kind with
    | typeAlias => exact absurd (hkind ▸ hkinds) halias
    | typeParam => exact absurd (hkind ▸ hkinds) hparam
    | value | function | variant =>
      simp only [hkind] at h
      exact .inl h
    | structType | enumType | classType =>
      simp only [hkind] at h
      exact .inr (by simp [h, headOf, hother, hlookup, hkind])

lemma Denotes.outline (hs : s.NamesWithin kinds) {t : TypeExpr} (ht : t.IsOwn kinds)
    (h : t.Denotes s found ty) : ty = .error ∨ ty.outline? = t.outline? := by
  cases t with
  | named span name args =>
    obtain ⟨types, -, hname⟩ := h
    cases hbuiltIn : builtInType? name types with
    | some known =>
      simp only [hbuiltIn] at hname
      subst hname
      exact .inr (outline?_of_builtInType? hbuiltIn)
    | none =>
      simp only [hbuiltIn] at hname
      refine (nameDenotes_own hs ht (builtInType?_eq_none_iff.mp hbuiltIn) hname).imp_right ?_
      rintro rfl
      have hhead : (s.headOf name).name = name := by
        unfold headOf
        split <;> rfl
      simp [Ty.outline?, outline?, ofName?_eq_none hbuiltIn, hhead]
  | union => exact ht.elim
  | tuple span elements =>
    obtain ⟨types, -, rfl⟩ := h
    exact .inr rfl
  | fn span params result =>
    obtain ⟨types, returned, -, -, rfl⟩ := h
    exact .inr rfl
  | hole span =>
    exact .inl h

lemma denoteAll_iff_forall₂ {ts : List TypeExpr} {types : List Ty} :
    DenoteAll s found ts types ↔ List.Forall₂ (Denotes s found) ts types := by
  induction ts generalizing types with
  | nil => simp [DenoteAll]
  | cons t ts ih => simp [DenoteAll, List.forall₂_cons_left_iff, ih]

/-- The types that closed type expressions stand for: without unions and type parameters, and with names
that stand for what they do in the state. -/
abbrev Plain (s : State) (ty : Ty) : Prop := ty.Rigid ∧ ty.Headed s.headOf

lemma Plain.named {head : TypeHead} {args : Option (List Ty)} (hhead : head = s.headOf head.name)
    (hargs : ∀ ty ∈ args.getD [], Plain s ty) : Plain s (.named head args) := by
  have hparts : (Ty.named head args).parts = args.getD [] := by
    cases args <;> rfl
  refine ⟨.intro rfl fun ty hty => (hargs ty (hparts ▸ hty)).1,
    .intro ?_ fun ty hty => (hargs ty (hparts ▸ hty)).2⟩
  intro other hother
  obtain rfl := some.inj hother
  exact hhead

lemma Plain.builtIn (hargs : ∀ ty ∈ args, Plain s ty) (h : builtInType? name args = some ty) :
    Plain s ty := by
  have hget (n : Nat) : Plain s (args[n]?.getD .unknown) := by
    cases hn : args[n]? with
    | none => exact ⟨.intro rfl (by simp [parts]), .intro (by simp [head?]) (by simp [parts])⟩
    | some ty => exact hargs ty (List.mem_of_getElem? hn)
  unfold builtInType? at h
  split at h
  · obtain rfl := some.inj h
    exact ⟨.intro rfl (by simp [parts]), .intro (by simp [head?]) (by simp [parts])⟩
  · split at h
    · obtain rfl := some.inj h
      exact .named rfl (by simpa using hget 0)
    · split at h
      · obtain rfl := some.inj h
        exact .named rfl (by simpa using ⟨hget 0, hget 1⟩)
      · simp at h

lemma Denotes.plain (hs : s.NamesWithin kinds) {t : TypeExpr} (ht : t.Closed kinds)
    (h : t.Denotes s found ty) : Plain s ty := by
  have herror : Plain s .error :=
    ⟨.intro rfl (by simp [parts]), .intro (by simp [head?]) (by simp [parts])⟩
  have hall : ∀ {ts : List TypeExpr} {types : List Ty},
      (∀ t ∈ ts, ∀ {ty}, t.Denotes s found ty → Plain s ty) → DenoteAll s found ts types →
      ∀ ty ∈ types, Plain s ty := by
    intro ts types hts h ty hty
    obtain ⟨t, ht, hdenotes⟩ := forall₂_mem_right (denoteAll_iff_forall₂.mp h) hty
    exact hts t ht hdenotes
  induction ht generalizing ty with
  | @named span name args hname _ ih =>
    obtain ⟨types, htypes, h⟩ := h
    have hargs := hall ih htypes
    cases hbuiltIn : builtInType? name types with
    | some known =>
      simp only [hbuiltIn] at h
      exact h ▸ .builtIn hargs hbuiltIn
    | none =>
      simp only [hbuiltIn] at h
      rcases nameDenotes_own hs hname (builtInType?_eq_none_iff.mp hbuiltIn) h with rfl | rfl
      · exact herror
      · refine .named ?_ fun ty hty => hargs ty ?_
        · unfold headOf
          split <;> simp_all
        · split at hty
          · simp at hty
          · exact hty
  | tuple _ ih =>
    obtain ⟨types, htypes, rfl⟩ := h
    have helements := hall ih htypes
    exact ⟨.intro rfl fun ty hty => (helements ty hty).1,
      .intro (by simp [head?]) fun ty hty => (helements ty hty).2⟩
  | fn _ _ ih ih' =>
    obtain ⟨types, returned, htypes, hreturned, rfl⟩ := h
    have hparts : ∀ ty ∈ (Ty.fn types returned).parts, Plain s ty := by
      intro ty hty
      rcases List.mem_cons.mp hty with rfl | hty
      · exact ih' hreturned
      · exact hall ih htypes ty hty
    exact ⟨.intro rfl fun ty hty => (hparts ty hty).1,
      .intro (by simp [head?]) fun ty hty => (hparts ty hty).2⟩
  | hole span =>
    exact h ▸ herror

lemma isInert_of_outline {t : TypeExpr} (ht : t.isInert)
    (h : ty = .error ∨ ty.outline? = t.outline?) : ty.isInert := by
  rcases h with rfl | h
  · rfl
  · unfold isInert at ht
    rw [← h] at ht
    cases ty with
    | prim p => exact ht
    | error => rfl
    | _ => simp [Ty.outline?] at ht

lemma isOwn_of_isInert {t : TypeExpr} (ht : t.isInert) : t.IsOwn kinds := by
  cases t with
  | named span name args =>
    refine .inl ?_
    cases hprim : ofName? name with
    | some p => simp [isBuiltIn, builtInType?, hprim]
    | none => simp [isInert, outline?, hprim] at ht
  | union => simp [isInert, outline?] at ht
  | _ => trivial

lemma primitive?_eq_some {p : Primitive} (h : ty.primitive? = some p) :
    ty.outline? = some (.prim p) := by
  cases ty with
  | prim q => rw [← some.inj h]; rfl
  | _ => simp [primitive?] at h

/-- Neighbours that may change places stand for types of which it does not matter which comes first,
unless the types are equal. -/
lemma Exchangeable.apart (hs : s.NamesWithin kinds) {x y : TypeExpr} {a b : Ty}
    (hxy : Exchangeable kinds x y) (ha : x.Denotes s found a) (hb : y.Denotes s found b) :
    a = b ∨ Ty.Apart a b := by
  rcases hxy.told with hx | hy | h
  · have hinert := isInert_of_outline hx (ha.outline hs (isOwn_of_isInert hx))
    exact .inr (.of_isInert hinert b)
  · have hinert := isInert_of_outline hy (hb.outline hs (isOwn_of_isInert hy))
    exact .inr (Apart.of_isInert hinert a).symm
  · rcases ha.outline hs h.left with rfl | houtline
    · exact .inr (.of_isInert rfl b)
    rcases hb.outline hs h.right with rfl | houtline'
    · exact .inr (Apart.of_isInert rfl a).symm
    have hprims {p q : Primitive} (hp : a.primitive? = some p) (hq : b.primitive? = some q) :
        x.outline? = some (.prim p) ∧ y.outline? = some (.prim q) :=
      ⟨houtline ▸ primitive?_eq_some hp, houtline' ▸ primitive?_eq_some hq⟩
    have happart (htold : Ty.Told a b) : Ty.Apart a b :=
      ⟨fun hp hq => h.integers (hprims hp hq).1 (hprims hp hq).2,
        fun hp hq => h.floats (hprims hp hq).1 (hprims hp hq).2, htold⟩
    rcases h.differ with hdiffer | ⟨hx, hy⟩
    · have hsome : ∀ {t : TypeExpr}, t.IsOwn kinds → ∃ o, t.outline? = some o := by
        intro t ht
        cases t with
        | union => exact ht.elim
        | named span name args =>
          cases hprim : ofName? name <;> simp [outline?, hprim]
        | _ => exact ⟨_, rfl⟩
      obtain ⟨o, ho⟩ := hsome h.left
      obtain ⟨o', ho'⟩ := hsome h.right
      refine .inr (happart (.outlines (houtline.trans ho) (houtline'.trans ho') ?_))
      rintro rfl
      exact hdiffer (ho.trans ho'.symm)
    · have hplain := ha.plain hs hx
      have hplain' := hb.plain hs hy
      by_cases hab : a = b
      · exact .inl hab
      · refine .inr (happart (.rigid hplain.1 hplain'.1 ?_ ?_))
        · exact Bool.eq_false_iff.mpr fun hsame =>
            hab (eq_of_same_of_headed hplain.1 hplain.2 hplain'.2 hsame)
        · exact Bool.eq_false_iff.mpr fun hsame =>
            hab (eq_of_same_of_headed hplain'.1 hplain'.2 hplain.2 hsame).symm

end TypeExpr

namespace State

variable {t u : State}

abbrev Permuted : State → State → Prop :=
  DiffersIn Eq fun ds es => ds.entries.toList.Perm es.entries.toList

lemma Permuted.unnoticed : Unnoticed Permuted := by
  refine DiffersIn.unnoticed (fun _ _ _ _ h => h ▸ rfl) (fun ds es d h => ?_)
    (fun ds es start middle h => ?_) fun ds es h => ?_
  · simpa using h.append_right [d]
  · exact (ds.hoist_perm start middle).trans (h.trans (es.hoist_perm start middle).symm)
  · rw [size_eq, size_eq, h.length_eq]

protected lemma Permuted.refl (s : State) : s.Permuted s := ⟨rfl, rfl, .refl _⟩

lemma Permuted.trans (h : s.Permuted t) (h' : t.Permuted u) : s.Permuted u where
  rest := by
    rw [h'.rest, h.rest]
  types := h.types.trans h'.types
  diagnostics := h.diagnostics.trans h'.diagnostics

lemma Permuted.symm (h : s.Permuted t) : t.Permuted s where
  rest := by
    rw [h.rest]
  types := h.types.symm
  diagnostics := h.diagnostics.symm

def arityFindings (name : String) (arity count : Nat) : List Finding :=
  if arity = count then [] else [.genericArity name arity count]

/-- How many arguments a name takes as that of a type, or what is wrong with it. -/
def typeArity (s : State) (name : String) : Except Finding Nat :=
  match ofName? name with
  | some _ => .ok 0
  | none =>
    if name = arrayName then .ok 1
    else if name = mapName then .ok 2
    else match s.scopes.lookupType name with
      | none => .error (.unknownType name)
      | some id =>
        match (s.symbols.get id).kind with
        | .typeParam | .typeAlias => .ok 0
        | .structType | .enumType | .classType => .ok (s.symbols.get id).typeParams.length
        | .value | .function | .variant => .error (.notAType name)

def nameFindings (s : State) (name : String) (count : Nat) : List Finding :=
  match s.typeArity name with
  | .error finding => [finding]
  | .ok arity => arityFindings name arity count

mutual

/-- What is wrong with a type expression, with each node after those inside it. -/
def typeReports (s : State) : TypeExpr → List Diagnostic
  | .named span name args =>
    typeReportsAll s args ++ (s.nameFindings name args.length).map (·.toDiagnostic span)
  | .union _ members => typeReportsAll s members
  | .tuple _ elements => typeReportsAll s elements
  | .fn _ params result => typeReportsAll s params ++ typeReports s result
  | .hole span => [Finding.unresolvedType.toDiagnostic span]

def typeReportsAll (s : State) : List TypeExpr → List Diagnostic
  | [] => []
  | t :: rest => typeReports s t ++ typeReportsAll s rest

end

def adding (s : State) (ds : Diagnostics) : State := { s with diagnostics := s.diagnostics.append ds }

lemma adding_adding (s : State) (ds es : Diagnostics) :
    (s.adding ds).adding es = s.adding (ds.append es) := by
  simp only [adding, mk.injEq, true_and, and_true]
  exact ext_toList (by simp)

lemma NamesWithin.refines (hs : s.NamesWithin kinds) (h : s.Refines t) : t.NamesWithin kinds := by
  intro name id hid
  rw [h.scopes] at hid
  rw [h.kind]
  exact hs hid

end State

lemma Check.Appends.run_adding {x : Check α} (hx : x.Appends) (s : State)
    (ds : Diagnostics) : (x.run (s.adding ds)).1 = (x.run s).1 ∧
      (x.run (s.adding ds)).2.Permuted ((x.run s).2.adding ds) := by
  have hquiet : (s.adding ds).quiet = s.quiet := rfl
  rw [hx.run_eq (s.adding ds), hx.run_eq s, hquiet]
  refine ⟨rfl, rfl, rfl, ?_⟩
  have hcomm : (ds.entries.toList ++ (x.run s.quiet).2.diagnostics.entries.toList).Perm
      ((x.run s.quiet).2.diagnostics.entries.toList ++ ds.entries.toList) := List.perm_append_comm
  simpa [precededBy, adding] using hcomm.append_left s.diagnostics.entries.toList

lemma Check.Appends.diagnostics {α : Type} {x : Check α} (hx : x.Appends) (s : State) :
    ∃ ds, (x.run s).2.diagnostics.entries.toList = s.diagnostics.entries.toList ++ ds := by
  rw [hx.run_eq s]
  exact ⟨_, toList_append _ _⟩

namespace Rule

variable {β : Type}

/-- To resolve something only reads names of types: the answer, which is as `A` says, and what is
reported are the same whatever types aliases have, and no alias is found to be cyclic. -/
def Reads (visits : Visits) (s : State) (ds : List Diagnostic) (A : α → Prop)
    (x : Cyclic → Rule (α × Cyclic)) : Prop :=
  ∃ a, A a ∧ ∀ cyclic t, s.Refines t →
    ((x cyclic).toCheck visits).run t = ((a, cyclic), t.adding ⟨ds.toArray⟩)

namespace Reads

variable {ds es : List Diagnostic} {A : α → Prop} {B : β → Prop}

lemma adding_nil (t : State) : t.adding {} = t := by
  simp [adding, append]

protected lemma pure {a : α} (ha : A a) : Reads visits s [] A fun cyclic => pure (a, cyclic) :=
  ⟨a, ha, fun _ t _ => by rw [adding_nil]; rfl⟩

lemma report (finding : Finding) (span : Span) (a : α) :
    Reads visits s [finding.toDiagnostic span] (fun _ => True) fun cyclic => do
      report finding span
      return (a, cyclic) :=
  ⟨a, trivial, fun _ _ _ => rfl⟩

lemma checkArity (name : String) (expected given : Nat) (span : Span) (a : α) :
    Reads visits s ((arityFindings name expected given).map (·.toDiagnostic span)) (fun _ => True)
      fun cyclic => do
        checkArity name expected given span
        return (a, cyclic) := by
  unfold Rule.checkArity Rule.reportIf arityFindings
  by_cases h : expected = given
  · have hpure : Reads visits s [] (fun _ => True) fun cyclic => pure (a, cyclic) := .pure trivial
    simpa [h] using hpure
  · simpa [h] using report _ span a

protected lemma bind {x : Cyclic → Rule (α × Cyclic)} {f : α → Cyclic → Rule (β × Cyclic)}
    (hx : Reads visits s ds A x) (hf : ∀ a, A a → Reads visits s es B (f a)) :
    Reads visits s (ds ++ es) B fun cyclic => x cyclic >>= fun r => f r.1 r.2 := by
  obtain ⟨a, ha, hx⟩ := hx
  obtain ⟨b, hb, hf⟩ := hf a ha
  refine ⟨b, hb, fun cyclic t ht => ?_⟩
  rw [toCheck_bind, run_bind, hx cyclic t ht, hf cyclic (t.adding ⟨ds.toArray⟩) (ht.trans (.of_symbols rfl rfl)),
    adding_adding]
  simp [append]

lemma andPure {x : Cyclic → Rule (α × Cyclic)} {f : α → β} (hx : Reads visits s ds A x)
    (hf : ∀ a, A a → B (f a)) :
    Reads visits s ds B fun cyclic => x cyclic >>= fun r => pure (f r.1, r.2) := by
  simpa using hx.bind fun a ha => .pure (hf a ha)

lemma lookupType {f : Option SymbolId → Cyclic → Rule (α × Cyclic)}
    (h : Reads visits s ds A (f (s.scopes.lookupType name))) :
    Reads visits s ds A fun cyclic => lookupType name >>= fun found => f found cyclic := by
  obtain ⟨a, ha, h⟩ := h
  refine ⟨a, ha, fun cyclic t ht => ?_⟩
  have hlookup : run ((Rule.lookupType name).toCheck visits) t = (s.scopes.lookupType name, t) := by
    rw [← ht.scopes]
    rfl
  rw [toCheck_bind, run_bind, hlookup]
  exact h cyclic t ht

lemma symbol {id : SymbolId} {f : Symbol → Cyclic → Rule (α × Cyclic)}
    (hf : ∀ ty, f { s.symbols.get id with ty } = f (s.symbols.get id))
    (h : Reads visits s ds A (f (s.symbols.get id))) :
    Reads visits s ds A fun cyclic => symbol id >>= fun declared => f declared cyclic := by
  obtain ⟨a, ha, h⟩ := h
  refine ⟨a, ha, fun cyclic t ht => ?_⟩
  have hread : run ((Rule.symbol id).toCheck visits) t = (t.symbols.get id, t) := rfl
  rw [toCheck_bind, run_bind, hread, ht.symbol id, hf]
  exact h cyclic t ht

end Reads

/-- If the name is that of an alias, the type of the alias is there to be read. -/
def AliasKnown (visits : Visits) (active : List String) (s : State) (name : String) : Prop :=
  isBuiltIn name ∨ ∀ id, s.scopes.lookupType name = some id → (s.symbols.get id).kind = .typeAlias →
    ∃ ty, ∀ span cyclic t, s.Refines t →
      (visits.expand active id span cyclic).run t = ((ty, cyclic), t)

lemma namedType_reads (hname : AliasKnown visits active s name) (args : List Ty) (span : Span) :
    Reads visits s ((s.nameFindings name args.length).map (·.toDiagnostic span)) (fun _ => True)
      (namedType active name args span) := by
  unfold namedType nameFindings typeArity
  cases hprim : ofName? name with
  | some p => exact .checkArity name 0 args.length span _
  | none =>
    by_cases harray : name = arrayName
    · simp only [if_pos harray]
      exact .checkArity name 1 args.length span _
    by_cases hmap : name = mapName
    · simp only [if_neg harray, if_pos hmap]
      exact .checkArity name 2 args.length span _
    have halias := hname.resolve_left (by simp [isBuiltIn, builtInType?, hprim, harray, hmap])
    simp only [if_neg harray, if_neg hmap]
    refine .lookupType ?_
    cases hlookup : s.scopes.lookupType name with
    | none => exact .report _ span _
    | some id =>
      refine .symbol (fun _ => rfl) ?_
      dsimp only
      cases hkind : (s.symbols.get id).kind with
      | typeAlias =>
        obtain ⟨ty, hexpand⟩ := halias id hlookup hkind
        have hread : Reads visits s [] (fun _ => True) fun cyclic => Steps.lift (.expand active id span cyclic) :=
          ⟨ty, trivial, fun cyclic t ht => by
            rw [Reads.adding_nil, toCheck_expand]
            exact hexpand span cyclic t ht⟩
        simpa using (Reads.checkArity name 0 args.length span ()).bind fun _ _ => hread
      | typeParam | structType | enumType | classType => exact .checkArity name _ args.length span _
      | value | function | variant => exact .report _ span _

mutual

theorem resolveIn_reads : ∀ {t : TypeExpr}, (∀ name ∈ t.names, AliasKnown visits active s name) →
    Reads visits s (s.typeReports t) (fun _ => True) fun cyclic => resolveIn active t cyclic
  | .named span name args, ht => by
    refine .bind (f := fun types cyclic => namedType active name types span cyclic)
      (resolveAllIn_reads fun other hother => ht other (.tail _ hother)) fun types htypes => ?_
    rw [← htypes]
    exact namedType_reads (ht name (.head _)) types span
  | .union _ _, ht | .tuple _ _, ht => by
    exact (resolveAllIn_reads ht).andPure fun _ _ => trivial
  | .fn _ params result, ht => by
    refine .bind (f := fun types cyclic => resolveIn active result cyclic >>= fun r =>
        pure (Ty.fn types r.1, r.2))
      (resolveAllIn_reads fun other hother => ht other (List.mem_append_left _ hother)) fun types _ => ?_
    exact (resolveIn_reads fun other hother => ht other (List.mem_append_right _ hother)).andPure
      fun _ _ => trivial
  | .hole span, _ => by
    exact .report _ span _

theorem resolveAllIn_reads : ∀ {ts : List TypeExpr},
    (∀ name ∈ TypeExpr.namesAll ts, AliasKnown visits active s name) →
    Reads visits s (s.typeReportsAll ts) (fun types => types.length = ts.length)
      fun cyclic => resolveAllIn active ts cyclic
  | [], _ => by
    exact .pure rfl
  | t :: rest, hts => by
    refine .bind (f := fun ty cyclic => resolveAllIn active rest cyclic >>= fun r =>
        pure (ty :: r.1, r.2))
      (resolveIn_reads fun other hother => hts other (List.mem_append_left _ hother)) fun ty _ => ?_
    exact (resolveAllIn_reads fun other hother => hts other (List.mem_append_right _ hother)).andPure
      fun _ hlength => congrArg (· + 1) hlength

end

end Rule

/-- To expand an alias changes nothing but types of aliases, and does not depend on what was put out. -/
structure Visits.Calm (visits : Visits) (active : List String) : Prop where
  appends (id : SymbolId) (span : Span) (cyclic : Cyclic) :
    (visits.expand active id span cyclic).Appends
  refines (id : SymbolId) (span : Span) (cyclic : Cyclic) (s : State) :
    s.Refines ((visits.expand active id span cyclic).run s).2

namespace Rule

variable {ts us : List TypeExpr} {x y : TypeExpr}

variable (hcalm : visits.Calm active)

include hcalm

lemma Silent.refines {x : Rule α} (hx : Silent True active x) (s : State) :
    s.Refines ((x.toCheck visits).run s).2 :=
  hx.closed (.of_rel Refines.refl .trans) (fun _ h _ s => .step (.of_silent h) s) hcalm.refines s

abbrev resolved (visits : Visits) (active : List String) (t : TypeExpr) (cyclic : Cyclic) (s : State) :
    (Ty × Cyclic) × State :=
  ((resolveIn active t cyclic).toCheck visits).run s

abbrev resolvedAll (visits : Visits) (active : List String) (ts : List TypeExpr) (cyclic : Cyclic)
    (s : State) : (List Ty × Cyclic) × State :=
  ((resolveAllIn active ts cyclic).toCheck visits).run s

omit hcalm in
lemma resolvedAll_cons (t : TypeExpr) (ts : List TypeExpr) (cyclic : Cyclic) (s : State) :
    resolvedAll visits active (t :: ts) cyclic s =
      let first := resolved visits active t cyclic s
      let others := resolvedAll visits active ts first.1.2 first.2
      ((first.1.1 :: others.1.1, others.1.2), others.2) := by
  unfold resolvedAll
  rw [resolveAllIn, toCheck_bind, run_bind]
  rw [toCheck_bind, run_bind]
  rfl

lemma resolved_denotes (t : TypeExpr) (cyclic : Cyclic) (s : State) :
    t.Denotes s (fun _ _ => True) (resolved visits active t cyclic s).1.1 := by
  have hcourse : Course (fun u v => u.2.Refines v.2) fun _ _ _ => True :=
    ⟨fun w => .refl w.2, .trans, fun w _ _ _ => .of_symbols rfl rfl, fun h => h.scopes,
      fun h id => h.kind id, fun _ _ => trivial⟩
  have hexpands : Expands visits active (fun u v => u.2.Refines v.2) (fun _ _ _ => True) (cyclic, s)
      t.names := fun w id span _ _ => ⟨hcalm.refines id span w.1 w.2, trivial⟩
  exact (resolveIn_denotes hcourse t (w := (cyclic, s)) hexpands (.refl s)).2

omit hcalm in
lemma aliasKnown (hs : s.NamesWithin kinds) (hx : x.AvoidsAliases kinds) :
    ∀ name ∈ x.names, AliasKnown visits active s name :=
  fun name hname => (hx name hname).imp_right fun halias _ hlookup hkind =>
    absurd (hkind ▸ hs hlookup) halias

/-- What says the same whatever aliases turn out to be may be resolved before another or after it. -/
lemma resolved_swap (hs : s.NamesWithin kinds) (hx : x.AvoidsAliases kinds) (cyclic : Cyclic) :
    let first := resolved visits active x cyclic s
    let other := resolved visits active y cyclic s
    let after := resolved visits active y first.1.2 first.2
    let last := resolved visits active x other.1.2 other.2
    after.1 = other.1 ∧ last.1 = (first.1.1, other.1.2) ∧ after.2.Permuted last.2 := by
  obtain ⟨a, -, hread⟩ := resolveIn_reads (aliasKnown hs hx)
  have hsilent : Silent True active (resolveIn active y cyclic) := (resolveIn_does y cyclic).silent
  have hadding := (hsilent.appendsIn hcalm.appends).run_adding s ⟨(s.typeReports x).toArray⟩
  dsimp only [resolved]
  rw [hread cyclic s (.refl s), hread _ _ (hsilent.refines hcalm s)]
  exact ⟨hadding.1, rfl, hadding.2⟩

/-- Neighbours that may change places are resolved to the same types in either order, and to states from
which all else goes on alike. -/
lemma resolved_pair (hs : s.NamesWithin kinds)
    (hxy : TypeExpr.Exchangeable kinds x y) (cyclic : Cyclic) :
    let first := resolved visits active x cyclic s
    let other := resolved visits active y cyclic s
    let after := resolved visits active y first.1.2 first.2
    let last := resolved visits active x other.1.2 other.2
    after.1.1 = other.1.1 ∧ last.1.1 = first.1.1 ∧ after.1.2 = last.1.2 ∧ after.2.Permuted last.2 := by
  rcases hxy.aliases with hx | hy
  · obtain ⟨hafter, hlast, hstates⟩ := resolved_swap (y := y) hcalm hs hx cyclic
    exact ⟨by rw [hafter], by rw [hlast], by rw [hafter, hlast], hstates⟩
  · obtain ⟨hafter, hlast, hstates⟩ := resolved_swap (y := x) hcalm hs hy cyclic
    exact ⟨by rw [hlast], by rw [hafter], by rw [hafter, hlast], hstates.symm⟩

lemma resolvedAll_rearranged (h : Rearranged (TypeExpr.Exchangeable kinds) ts us) (cyclic : Cyclic)
    (hs : s.NamesWithin kinds) : Rearranged Ty.Apart (resolvedAll visits active ts cyclic s).1.1
        (resolvedAll visits active us cyclic s).1.1 ∧
      (resolvedAll visits active ts cyclic s).1.2 = (resolvedAll visits active us cyclic s).1.2 ∧
      (resolvedAll visits active ts cyclic s).2.Permuted
        (resolvedAll visits active us cyclic s).2 := by
  induction h generalizing cyclic s with
  | nil => exact ⟨.refl _, rfl, .refl _⟩
  | cons t _ ih =>
    rw [resolvedAll_cons, resolvedAll_cons]
    have hsilent : Silent True active (resolveIn active t cyclic) := (resolveIn_does t cyclic).silent
    have hrefines := hsilent.refines hcalm s
    obtain ⟨htypes, hcyclic, hstates⟩ := ih (resolved visits active t cyclic s).1.2 (hs.refines hrefines)
    exact ⟨.cons _ htypes, hcyclic, hstates⟩
  | @swap x y hxy rest =>
    obtain ⟨hy, hx, hcyclic, hstates⟩ := resolved_pair hcalm hs hxy cyclic
    simp only [resolvedAll_cons]
    rw [hy, hx, hcyclic]
    obtain ⟨hanswer, hafter⟩ := run_unnoticed Permuted.unnoticed
      ((resolveAllIn active rest (resolved visits active x (resolved visits active y cyclic s).1.2
        (resolved visits active y cyclic s).2).1.2).toCheck visits) hstates
    refine ⟨?_, congrArg Prod.snd hanswer, hafter⟩
    rw [congrArg Prod.fst hanswer]
    rcases hxy.apart hs (resolved_denotes hcalm x cyclic s) (resolved_denotes hcalm y cyclic s) with
      heq | hapart
    · rw [heq]
      exact .refl _
    · exact .swap hapart _
  | trans _ _ ih ih' =>
    obtain ⟨htypes, hcyclic, hstates⟩ := ih cyclic hs
    obtain ⟨htypes', hcyclic', hstates'⟩ := ih' cyclic hs
    exact ⟨.trans htypes htypes', hcyclic.trans hcyclic', hstates.trans hstates'⟩

end Rule

namespace Check

lemma calm_of_expand (h : visits.expand = expand) : visits.Calm [] := by
  constructor
  · rw [h]
    exact expand_appends []
  · rw [h]
    exact expand_refines

end Check

end StaticTyping
