import StaticTyping.Proofs.Mirror.Callee
import StaticTyping.Proofs.Mirror.Params

/-! Declarations side by side. They differ at most in the names of their type parameters and, with
these, in the types that they write. -/

namespace StaticTyping

open List Option StmtKind

variable {name : String} {a b : FunctionDecl} {kind : StmtKind}

/-- The names inside a declaration with such type parameters. -/
abbrev Mirror.inside (m : Mirror) (c : Names) (ps qs : List Ident) : Names :=
  m.enter c (ps.map (·.name)) (qs.map (·.name))

structure ParamDecl.Mirrors (m : Mirror) (c : Names) (a b : ParamDecl) : Prop where
  name : a.name = b.name
  span : a.span = b.span
  kind : a.kind = b.kind
  isMutable : a.isMutable = b.isMutable
  type : Option.Rel (TypeExpr.Mirrors m c) a.type b.type
  default : a.default = b.default

structure FunctionDecl.Mirrors (m : Mirror) (c : Names) (a b : FunctionDecl) : Prop where
  name : a.name = b.name
  typeParams : m.Parameters a.typeParams b.typeParams
  params : List.Forall₂ (ParamDecl.Mirrors m (m.inside c a.typeParams b.typeParams)) a.params b.params
  result : Option.Rel (TypeExpr.Mirrors m (m.inside c a.typeParams b.typeParams)) a.result b.result
  body : a.body = b.body

structure FieldDecl.Mirrors (m : Mirror) (c : Names) (a b : FieldDecl) : Prop where
  name : a.name = b.name
  span : a.span = b.span
  type : a.type.Mirrors m c b.type

structure RecordDecl.Mirrors (m : Mirror) (c : Names) (a b : RecordDecl) : Prop where
  name : a.name = b.name
  typeParams : m.Parameters a.typeParams b.typeParams
  fields : List.Forall₂ (FieldDecl.Mirrors m (m.inside c a.typeParams b.typeParams)) a.fields b.fields
  methods : a.methods = b.methods

structure VariantDecl.Mirrors (m : Mirror) (c : Names) (a b : VariantDecl) : Prop where
  name : a.name = b.name
  span : a.span = b.span
  payload : List.Forall₂ (TypeExpr.Mirrors m c) a.payload b.payload

structure EnumDecl.Mirrors (m : Mirror) (c : Names) (a b : EnumDecl) : Prop where
  name : a.name = b.name
  typeParams : m.Parameters a.typeParams b.typeParams
  variants : List.Forall₂ (VariantDecl.Mirrors m (m.inside c a.typeParams b.typeParams)) a.variants
    b.variants

structure AliasDecl.Mirrors (m : Mirror) (c : Names) (a b : AliasDecl) : Prop where
  name : a.name = b.name
  target : a.target.Mirrors m c b.target

structure LetDecl.Mirrors (m : Mirror) (c : Names) (a b : LetDecl) : Prop where
  isConst : a.isConst = b.isConst
  name : a.name = b.name
  type : Option.Rel (TypeExpr.Mirrors m c) a.type b.type
  value : a.value = b.value

/-- The statement itself writes no types, though others inside it may. -/
def StmtKind.isPlain : StmtKind → Bool
  | .bind _ | .function _ | .record _ _ | .enum _ | .typeAlias _ => false
  | _ => true

/-- The statements differ at most in the types that they write. -/
inductive StmtKind.Mirrors (m : Mirror) (c : Names) : StmtKind → StmtKind → Prop
  | bind {a b : LetDecl} (h : a.Mirrors m c b) : Mirrors m c (.bind a) (.bind b)
  | function {a b : FunctionDecl} (h : a.Mirrors m c b) : Mirrors m c (.function a) (.function b)
  | record {kind : RecordKind} {a b : RecordDecl} (h : a.Mirrors m c b) :
      Mirrors m c (.record kind a) (.record kind b)
  | enum {a b : EnumDecl} (h : a.Mirrors m c b) : Mirrors m c (.enum a) (.enum b)
  | typeAlias {a b : AliasDecl} (h : a.Mirrors m c b) : Mirrors m c (.typeAlias a) (.typeAlias b)
  | plain {kind : StmtKind} (h : kind.isPlain = true) : Mirrors m c kind kind

def StmtKind.valueNames : StmtKind → List String
  | .function decl => [decl.name.name]
  | .enum decl => decl.variants.map (·.name)
  | _ => []

/-- The name that a pattern looks up, as it may be that of a variant. -/
def Pattern.name? (pattern : Pattern) : Option String :=
  match pattern.kind with
  | .name name => some name
  | .variant name _ => some name.name
  | .wildcard | .literal _ => none

/-- The names of values that a statement declares in the scope it stands in, and those that it looks
up by itself. -/
def StmtKind.ownNames : StmtKind → List String
  | .bind decl => [decl.name.name]
  | .cases _ arms => arms.filterMap (·.pattern.name?)
  | kind => kind.valueNames

lemma StmtKind.ownNames_of_valueNames (h : name ∈ kind.valueNames) : name ∈ kind.ownNames := by
  cases kind with
  | bind | cases => simp [valueNames] at h
  | _ => exact h

namespace Rule

variable {p : Program} {visits : Visits} {s : State}

lemma typeSymbol?_kind {symbol : Symbol} (h : kind.typeSymbol? = some symbol) :
    symbol.kind ≠ .typeParam := by
  cases kind with
  | record kind decl =>
    obtain rfl := some.inj h
    cases kind <;> simp [RecordKind.symbolKind]
  | enum | typeAlias =>
    obtain rfl := some.inj h
    simp
  | _ => simp [typeSymbol?] at h

lemma registerTypeName_fixes (id : StmtId) :
    Ends visits (registerTypeName p id) s fun made t => ∀ i ∈ made, t.symbols.Fixes i := by
  unfold registerTypeName
  split
  · exact .pure (by simp)
  · rename_i symbol hsymbol
    refine (allocate_fixes (typeSymbol?_kind hsymbol)).bind fun made t hmade => ?_
    refine (ends_fixes _ hmade).bind fun _ u hmade => ?_
    exact (ends_fixes _ hmade).bind fun _ u hmade => .pure (by simpa using hmade)

lemma registerTypeNames_fixes (items : List StmtId) :
    Ends visits (registerTypeNames p items) s fun made t => ∀ x ∈ made, t.symbols.Fixes x.2 := by
  induction items generalizing s with
  | nil => exact .pure (by simp)
  | cons id rest ih =>
    refine (registerTypeName_fixes id).bind fun made t hmade => ?_
    have hkeep : Ends visits (registerTypeNames p rest) t fun _ u =>
        ∀ i ∈ made, u.symbols.Fixes i := fun i hi => ends_fixes _ (hmade i hi)
    refine (ih.and hkeep).bind ?_
    rintro others u ⟨hothers, hmade⟩
    refine .pure fun x hx => ?_
    rcases mem_append.mp hx with hx | hx
    · obtain ⟨i, hi, rfl⟩ := mem_map.mp hx
      exact hmade i (by simpa using hi)
    · exact hothers x hx

end Rule

namespace Mirror

open Rule

variable {m : Mirror} {v w : Visits} {E : TypeExpr → TypeExpr → Prop} {c : Names} {cs : List Names}
  {p q : Program}

lemma newSymbol_mirrors {kind : SymbolKind} {span : Span}
    {isPublic isPublic' isMutable isConst isParameter : Bool} {ps qs : List String}
    (h : Forall₂ m.params ps qs) {xs ys : List ParamInfo}
    (hparams : Forall₂ (ParamInfo.Mirrors m) xs ys) {x y : Option Ty}
    (hty : Rel (Ty.Mirrors m) x y) {t u : Option TypeExpr} (htarget : Rel E t u) :
    Symbol.Mirrors m E True
      { name, kind, span, isPublic, typeParams := ps, params := xs, ty := x, isMutable, isConst
        isParameter, aliasTarget := t }
      { name, kind, span, isPublic := isPublic', typeParams := qs, params := ys, ty := y, isMutable
        isConst, isParameter, aliasTarget := u } where
  kind := rfl
  name _ := rfl
  exactName _ := rfl
  span := rfl
  ty := hty
  params := hparams
  isMutable := rfl
  isConst := rfl
  isParameter := rfl
  typeParams := h
  members _ := .nil
  owner := .none
  payload := .nil
  variants _ := .nil
  target := rel_imp htarget fun _ _ h => ⟨rfl, fun _ => h⟩

section Registration

variable (hexpand : ∀ {c cs}, m.Context c → m.Expands v w (m.States E (c :: cs)) [])

include hexpand

section

variable (hc : m.Context c) {id : StmtId}

include hc

lemma paramInfos_agrees {ps qs : List ParamDecl}
    (h : Forall₂ (ParamDecl.Mirrors m c) ps qs) (namedOnly : Bool) :
    m.Rules v w E (c :: cs) (paramInfos namedOnly ps) (paramInfos namedOnly qs)
      (Forall₂ (ParamInfo.Mirrors m)) := by
  induction h generalizing namedOnly with
  | nil => exact .pure .nil
  | @cons a b _ _ hab _ ih =>
    refine .bind (resolveOptional_agrees hc (hexpand hc) hab.type) fun x y hxy => ?_
    have hty := rel_getD hxy (.unknown : Ty.Mirrors m .unknown .unknown)
    have hinfo : ∀ {x y : Ty} (role : ParamRole), x.Mirrors m y → ParamInfo.Mirrors
        m ⟨a.name, x, role, a.default.isSome, a.isMutable, a.span⟩
        ⟨b.name, y, role, b.default.isSome, b.isMutable, b.span⟩ := fun role hxy =>
      ⟨hab.name, hxy, rfl, congrArg isSome hab.default, hab.isMutable, hab.span⟩
    rw [← hab.kind]
    cases a.kind with
    | separator => exact ih true
    | ordinary => exact .andPure (ih namedOnly) fun _ _ h => .cons (hinfo _ hty) h
    | variadic => exact .andPure (ih true) fun _ _ h => .cons (hinfo _ hty.array) h
    | kwVariadic =>
      exact .andPure (ih namedOnly) fun _ _ h => .cons (hinfo _ (.map (.prim _) hty)) h

lemma functionHeader_agrees (hab : a.Mirrors m c b) :
    m.Rules v w E (c :: cs) (functionHeader a) (functionHeader b)
      fun x y => Forall₂ (ParamInfo.Mirrors m) x.1 y.1 ∧ Rel (Ty.Mirrors m) x.2 y.2 := by
  have hinside := hc.enter hab.typeParams.names
  refine inParams_agrees hab.typeParams ?_
  refine .bind (paramInfos_agrees hexpand hinside hab.params false) fun xs ys hxs => ?_
  exact .andPure (resolveOptional_agrees hinside (hexpand hinside) hab.result) fun _ _ h => ⟨hxs, h⟩

lemma functionSymbol_agrees (hid : m.declared id) (hab : a.Mirrors m c b) :
    m.Rules v w E (c :: cs) (functionSymbol id a) (functionSymbol id b) m.symbols := by
  refine .bind (declaredSymbol_agrees hid) fun found found' hfound => ?_
  cases hfound with
  | some hij => exact .pure hij
  | none =>
    refine .bind (functionHeader_agrees hexpand hc hab) ?_
    rintro ⟨xs, r⟩ ⟨ys, t⟩ ⟨hxs, hrt⟩
    have hty : Rel (Ty.Mirrors m) (r.map (.fn (xs.map (·.ty)) ·))
        (t.map (.fn (ys.map (·.ty)) ·)) := by
      cases hrt with
      | none => exact .none
      | some h => exact .some (.fn (paramTypes_mirrors hxs) h)
    rw [← hab.name]
    refine .bindWith (K := fun i s => s.symbols.Fixes i)
      (allocate_agrees (newSymbol_mirrors hab.typeParams.names hxs hty .none) rfl)
      (fun _ _ _ => allocate_fixes (by simp)) fun i j hij => ?_
    exact .andThen (noteDeclaration_leads id hij) fun _ _ => .pure hij

lemma registerFunction_agrees (hid : m.declared id)
    (hab : a.Mirrors m c b) (hvalue : m.values a.name.name) :
    m.Rules v w E (c :: cs) (registerFunction id a) (registerFunction id b) m.symbols := by
  refine .bind (functionSymbol_agrees hexpand hc hid hab) fun i j hij => ?_
  rw [← hab.name]
  exact .andThen (declareValue_agrees (.inl hvalue) hij _) fun _ _ => .pure hij

lemma fieldMembers_agrees {r s : String} (hrs : m.exact → r = s)
    {fs gs : List FieldDecl} (h : Forall₂ (FieldDecl.Mirrors m c) fs gs) (seen : List String) :
    m.Rules v w E (c :: cs) (fieldMembers r seen fs) (fieldMembers s seen gs)
      (Forall₂ (Member.Mirrors m)) := by
  induction h generalizing seen with
  | nil => exact .pure .nil
  | cons hab _ ih =>
    refine .bind (resolveType_agrees hc (hexpand hc) hab.type) fun x y hxy => ?_
    rw [hab.name, hab.span]
    split
    · refine .andThen (report_agrees _ rfl rfl fun h => by rw [hrs h]) fun _ _ => ?_
      exact ih seen
    · exact .andPure (ih _) fun _ _ h => .cons ⟨rfl, hxy, .none⟩ h

lemma methodMembers_agrees {r s : String} (hrs : m.exact → r = s) {methods : List StmtId}
    (h : ∀ id ∈ methods, m.declared id ∧ (p.stmt id).kind.Mirrors m c (q.stmt id).kind)
    (seen : List String) : m.Rules v w E (c :: cs) (methodMembers p r seen methods)
      (methodMembers q s seen methods) (Forall₂ (Member.Mirrors m)) := by
  induction methods generalizing seen with
  | nil => exact .pure .nil
  | cons id rest ih =>
    obtain ⟨⟨hid, hkind⟩, hrest⟩ := forall_mem_cons.mp h
    unfold methodMembers
    generalize (p.stmt id).kind = k at hkind
    generalize (q.stmt id).kind = l at hkind
    cases hkind with
    | function hab =>
      refine .bind (functionSymbol_agrees hexpand hc hid hab) fun i j hij => ?_
      rw [hab.name]
      split
      · refine .andThen (report_agrees _ rfl rfl fun h => by rw [hrs h]) fun _ _ => ?_
        exact ih hrest seen
      · refine .bind (symbol_agrees hij) fun x y hxy => ?_
        exact .andPure (ih hrest _) fun _ _ h =>
          .cons ⟨rfl, rel_getD hxy.ty .unknown, .some hij⟩ h
    | bind | record | enum | typeAlias => exact ih hrest seen
    | plain hplain =>
      cases k with
      | function => cases hplain
      | _ => exact ih hrest seen

lemma populateRecord_agrees {i j : SymbolId} (hij : m.symbols i j)
    {a b : RecordDecl} (hab : a.Mirrors m c b)
    (hmethods : ∀ id ∈ a.methods, m.declared id ∧ (p.stmt id).kind.Mirrors m
      (m.inside c a.typeParams b.typeParams) (q.stmt id).kind) :
    m.Rules v w E (c :: cs) (populateRecord p i a) (populateRecord q j b) Both := by
  have hinside := hc.enter hab.typeParams.names
  refine .bind (symbol_agrees hij) fun x y hxy => ?_
  refine .bind (inParams_agrees hab.typeParams ?_) fun _ _ hmembers =>
    modify_agrees (fun _ => rfl) (fun _ => rfl) hij (fun _ => rfl) (fun _ => rfl) fun _ _ h =>
      { h with members := fun _ => hmembers }
  refine .bind (fieldMembers_agrees hexpand hinside hxy.exactName hab.fields []) fun fs gs hfs => ?_
  have hnames : fs.map (·.name) = gs.map (·.name) := by
    rw [← forall₂_eq_eq_eq]
    exact rel_map (fun _ _ h => h.name) hfs
  rw [hnames, ← hab.methods]
  exact .andPure (methodMembers_agrees hexpand hinside hxy.exactName hmethods _)
    fun _ _ h => rel_append hfs h

end

omit hexpand in
lemma variantSymbol_mirrors {i j : SymbolId} (hij : m.symbols i j) {a b : EnumDecl}
    (hname : a.name = b.name) {x y : VariantDecl} (hxy : x.Mirrors m c y) {xs ys : List Ty}
    (hxs : Forall₂ (Ty.Mirrors m) xs ys) :
    (variantSymbol i a x xs).Mirrors m E True (variantSymbol j b y ys) where
  kind := rfl
  name _ := hxy.name
  exactName _ := hxy.name
  span := hxy.span
  ty := by
    have henum := Ty.Mirrors.bareType (.some hij) a.name.name
    simp only [variantSymbol, ← hname, forall₂_isEmpty hxs]
    refine .some ?_
    split
    · exact henum
    · exact .fn hxs henum
  params := .nil
  isMutable := rfl
  isConst := rfl
  isParameter := rfl
  typeParams := .nil
  members _ := .nil
  owner := .some hij
  payload := hxs
  variants _ := .nil
  target := .none

omit hexpand in
lemma declareVariant_agrees {i j : SymbolId} (hij : m.symbols i j) {a b : EnumDecl}
    (hname : a.name = b.name) {x y : VariantDecl} (hxy : x.Mirrors m c y) (hvalue : m.values x.name)
    {xs ys : List Ty} (hxs : Forall₂ (Ty.Mirrors m) xs ys) :
    m.Agrees v w (m.Fixing E cs i) (do
        let made ← perform (.allocate (variantSymbol i a x xs))
        declareValue x.name made x.span
        return made)
      (do
        let made ← perform (.allocate (variantSymbol j b y ys))
        declareValue y.name made y.span
        return made) m.symbols := by
  have hallocate : m.Agrees v w (m.Fixing E cs i) (perform (.allocate (variantSymbol i a x xs)))
      (perform (.allocate (variantSymbol j b y ys))) m.symbols := by
    refine .perform ?_
    rintro s t ⟨hst, hi⟩
    refine ⟨hst.next 0, ⟨hst.alloc (variantSymbol_mirrors hij hname hxy hxs) ?_, ?_⟩,
      .nothing rfl rfl rfl rfl⟩
    · rintro id howner
      obtain rfl := some.inj howner
      exact hi
    · exact hi.mono (s.symbols.keepsKinds_alloc _)
  refine hallocate.bind fun k l hkl => ?_
  rw [← hxy.name, ← hxy.span]
  exact ((declareValue_agrees (.inl hvalue) hkl x.span).fixing i).andThen fun _ _ => .pure hkl

lemma populateEnum_leads (hc : m.Context c) {i j : SymbolId} (hij : m.symbols i j)
    {a b : EnumDecl} (hab : a.Mirrors m c b) (hvalues : ∀ x ∈ a.variants, m.values x.name) :
    m.Leads v w (m.Fixing E (c :: cs) i) (m.States E (c :: cs)) (populateEnum i a)
      (populateEnum j b) Both := by
  have hinside := hc.enter hab.typeParams.names
  refine .bind (.fixing (inParams_agrees hab.typeParams
    (.mapM hab.variants fun x y hxy => .mapM hxy.payload fun t u htu =>
      resolveType_agrees hinside (hexpand hinside) htu)) i) fun ps qs hps => ?_
  have hvariants : Forall₂ (fun x y => m.values x.name ∧
      x.Mirrors m (m.inside c a.typeParams b.typeParams) y) a.variants b.variants :=
    forall₂_imp_mem hab.variants fun x hx y _ hxy => ⟨hvalues x hx, hxy⟩
  refine .bind (.mapM (rel_zip hvariants hps) fun x y hxy =>
    declareVariant_agrees hij hab.name hxy.1.2 hxy.1.1 hxy.2) fun xs ys hxs => ?_
  exact .assume (modify_agrees (fun _ => rfl) (fun _ => rfl) hij (fun _ => rfl) (fun _ => rfl)
    fun _ _ h => { h with variants := fun _ => hxs }) fun _ _ h => h.1

end Registration

/-- What the two programs have to say of a declaration so that it is registered alike. -/
structure Registers (m : Mirror) (c : Names) (p q : Program) (id : StmtId) : Prop where
  declared : m.declared id
  kind : (p.stmt id).kind.Mirrors m c (q.stmt id).kind
  typeName {symbol : Symbol} : (p.stmt id).kind.typeSymbol? = some symbol →
    c symbol.name symbol.name ∧ m.kinds symbol.name symbol.kind
  valueName {name : String} : name ∈ (p.stmt id).kind.valueNames → m.values name
  methods {kind : RecordKind} {a b : RecordDecl} {method : StmtId} :
    (p.stmt id).kind = .record kind a → (q.stmt id).kind = .record kind b → method ∈ a.methods →
      m.declared method ∧ (p.stmt method).kind.Mirrors m (m.inside c a.typeParams b.typeParams)
        (q.stmt method).kind

def Targets (E : TypeExpr → TypeExpr → Prop) (p q : Program) (id : StmtId) : Prop :=
  ∀ a b, (p.stmt id).kind = .typeAlias a → (q.stmt id).kind = .typeAlias b → E a.target b.target

section Declared

variable {id : StmtId} {i j : SymbolId} (hid : m.Registers c p q id)
  (hexpand : ∀ {c cs}, m.Context c → m.Expands v w (m.States E (c :: cs)) [])

include hid

omit hid in
lemma declareSame_leads (hname : c name name) (hij : m.symbols i j) (span : Span) :
    m.Leads v w (fun s t => m.Fixing E (c :: cs) i s t ∧ m.kinds name (s.symbols.get i).kind)
      (m.Fixing E (c :: cs) i) (declareType name i span) (declareType name j span) Both := by
  refine declareType_leads span (fun _ => rfl) ?_ ?_
  · rintro s t ⟨⟨hst, hbound, hkind⟩, hkinds⟩ hs
    have hinner := hst.scopes.innerType hname
    rw [hs] at hinner
    refine ⟨rel_none hinner, hst.withScopes (hst.scopes.declareSame hname ?_), hbound, hkind⟩
    exact ⟨hij, hbound, hkinds, fun h => absurd h hkind, fun _ => rfl⟩
  · rintro s t k ⟨⟨hst, hfixes⟩, -⟩ hs
    have hinner := hst.scopes.innerType hname
    rw [hs] at hinner
    obtain ⟨l, hl, h⟩ := rel_some hinner
    exact ⟨l, hl, (hst.symbols h.paired).kind, fun _ _ => ⟨hst.withOutput _ _ _ _, hfixes⟩⟩

lemma typeSymbol?_mirrors (htarget : Targets E p q id) :
    Rel (fun x y => x.Mirrors m E True y ∧ x.name = y.name ∧ x.owner = none)
      (p.stmt id).kind.typeSymbol? (q.stmt id).kind.typeSymbol? := by
  have hkind := hid.kind
  unfold Targets at htarget
  generalize (p.stmt id).kind = k at hkind htarget
  generalize (q.stmt id).kind = l at hkind htarget
  cases hkind with
  | record h | enum h =>
    simp only [typeSymbol?, ← h.name]
    exact .some ⟨newSymbol_mirrors h.typeParams.names .nil .none .none, rfl, rfl⟩
  | typeAlias h =>
    simp only [typeSymbol?, ← h.name]
    exact .some ⟨newSymbol_mirrors .nil .nil .none (.some (htarget _ _ rfl rfl)), rfl, rfl⟩
  | bind | function => exact .none
  | plain hplain =>
    cases k with
    | bind | function | record | enum | typeAlias => cases hplain
    | _ => exact .none

lemma registerTypeName_agrees (htarget : Targets E p q id) :
    m.Rules v w E (c :: cs) (registerTypeName p id) (registerTypeName q id) (Rel m.symbols) := by
  have hname := @hid.typeName
  unfold registerTypeName
  rcases rel_cases (typeSymbol?_mirrors hid htarget) with ⟨hx, hy⟩ | ⟨x, y, hx, hy, hxy, hsame, howner⟩
  · rw [hx, hy]
    exact .pure .none
  · rw [hx, hy]
    dsimp only
    rw [← hsame, ← hxy.span]
    obtain ⟨hname, hkinds⟩ := hname hx
    refine .bindWith (K := fun i s => s.symbols.Fixes i ∧ m.kinds x.name (s.symbols.get i).kind)
      (allocate_agrees hxy howner)
      (fun s t _ => (allocate_fixes (typeSymbol?_kind hx)).and ?_) fun i j hij => ?_
    · have hkind : ((s.symbols.alloc x).2.get ⟨s.symbols.size⟩).kind = x.kind := by
        rw [SymbolTable.get_alloc_new]
      exact .perform _ (hkind ▸ hkinds)
    refine .andThen (.assume (declareSame_leads hname hij x.span) fun _ _ h =>
      ⟨⟨h.1, h.2.1⟩, h.2.2⟩) fun _ _ => ?_
    exact .andThen (noteDeclaration_leads id hij) fun _ _ => .pure (.some hij)

include hexpand

lemma populateType_leads (hc : m.Context c) (hij : m.symbols i j) :
    m.Leads v w (m.Fixing E (c :: cs) i) (m.States E (c :: cs)) (populateType p id i)
      (populateType q id j) Both := by
  have hkind := hid.kind
  have hvalues := @hid.valueName
  have hmethods := @hid.methods
  unfold populateType
  generalize (p.stmt id).kind = k at hkind hvalues hmethods
  generalize (q.stmt id).kind = l at hkind hmethods
  cases hkind with
  | record h =>
    refine .assume (populateRecord_agrees hexpand hc hij h fun method hmethod => ?_)
      fun _ _ h => h.1
    exact hmethods rfl rfl hmethod
  | enum h =>
    exact populateEnum_leads hexpand hc hij h fun x hx => hvalues (mem_map_of_mem hx)
  | typeAlias h => exact .assume (expandDeclared_agrees (hexpand hc) hij) fun _ _ h => h.1
  | bind | function => exact .assume (.pure trivial) fun _ _ h => h.1
  | plain hplain =>
    cases k with
    | bind | function | record | enum | typeAlias => cases hplain
    | _ => exact .assume (.pure trivial) fun _ _ h => h.1

lemma registerIfFunction_agrees (hc : m.Context c) :
    m.Rules v w E (c :: cs) (registerIfFunction p id) (registerIfFunction q id) Both := by
  have hkind := hid.kind
  have hvalues := @hid.valueName
  unfold registerIfFunction
  generalize (p.stmt id).kind = k at hkind hvalues
  generalize (q.stmt id).kind = l at hkind
  cases hkind with
  | function h =>
    exact .andPure (registerFunction_agrees hexpand hc hid.declared h (hvalues (.head _)))
      fun _ _ _ => trivial
  | bind | record | enum | typeAlias => exact .pure trivial
  | plain hplain =>
    cases k with
    | bind | function | record | enum | typeAlias => cases hplain
    | _ => exact .pure trivial

end Declared

section Items

variable (hexpand : ∀ {c cs}, m.Context c → m.Expands v w (m.States E (c :: cs)) [])
  {items : List StmtId} (hitems : ∀ id ∈ items, m.Registers c p q id)

include hitems

lemma registerTypeNames_agrees (htargets : ∀ id ∈ items, Targets E p q id) :
    m.Rules v w E (c :: cs) (registerTypeNames p items) (registerTypeNames q items)
      (Forall₂ fun x y => x.1 = y.1 ∧ x.1 ∈ items ∧ m.symbols x.2 y.2) := by
  induction items with
  | nil => exact .pure .nil
  | cons id rest ih =>
    obtain ⟨hid, hrest⟩ := forall_mem_cons.mp hitems
    obtain ⟨htarget, htargets⟩ := forall_mem_cons.mp htargets
    refine .bind (registerTypeName_agrees hid htarget) fun made made' hmade => ?_
    refine .andPure (ih hrest htargets) fun xs ys hxs => rel_append ?_ ?_
    · cases hmade with
      | none => exact .nil
      | some hij => exact .cons ⟨rfl, .head _, hij⟩ .nil
    · exact hxs.imp fun _ _ h => ⟨h.1, .tail _ h.2.1, h.2.2⟩

include hexpand

lemma registerDeclarations_agrees (hc : m.Context c) (htargets : ∀ id ∈ items, Targets E p q id) :
    m.Rules v w E (c :: cs) (registerDeclarations p items) (registerDeclarations q items) Both := by
  refine .bindWith (K := fun made s => ∀ x ∈ made, s.symbols.Fixes x.2)
    (registerTypeNames_agrees hitems htargets) (fun _ _ _ => registerTypeNames_fixes items)
    fun xs ys hxs => ?_
  have hpopulate : m.Agrees v w
      (fun s t => m.States E (c :: cs) s t ∧ ∀ x ∈ xs, s.symbols.Fixes x.2)
      (xs.forM fun x => populateType p x.1 x.2) (ys.forM fun y => populateType q y.1 y.2) Both := by
    have hmem : Forall₂ (fun x y => x ∈ xs ∧ x.1 = y.1 ∧ x.1 ∈ items ∧ m.symbols x.2 y.2)
        xs ys := forall₂_imp_mem hxs fun x hx y _ hxy => ⟨hx, hxy⟩
    refine .forM hmem ?_
    rintro ⟨id, i⟩ ⟨_, j⟩ ⟨hx, rfl, hid, hij⟩
    have hone : m.Leads v w (m.Fixing E (c :: cs) i) (m.States E (c :: cs)) (populateType p id i)
        (populateType q id j) Both := populateType_leads (hitems id hid) hexpand hc hij
    refine (hone.keeping (K := fun s => ∀ x ∈ xs, s.symbols.Fixes x.2) ?_).assume ?_
    · exact fun _ _ hkeep hs x hx => (hs x hx).mono hkeep
    · exact fun _ _ h => ⟨⟨h.1, h.2 _ hx⟩, h.2⟩
  refine .andThen hpopulate fun _ _ => .assume ?_ fun _ _ h => h.1
  refine .forM (pairedSelf items) ?_
  rintro id _ ⟨rfl, hid⟩
  exact registerIfFunction_agrees (hitems id hid) hexpand hc

end Items

end Mirror

end StaticTyping
