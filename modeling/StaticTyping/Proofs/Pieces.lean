import StaticTyping.Proofs.Effect
import StaticTyping.Proofs.References
import StaticTyping.Proofs.Visited.Silent

/-! What rules for statements are put together from. What is known of the effects of the pieces is known
of the rules, whatever the effect is. -/

namespace StaticTyping

open StmtKind List Program

/-- Only an alias has a target. Only a value is constant, mutable or a parameter, and a constant is
neither of the others. -/
structure Symbol.Proper (symbol : Symbol) : Prop where
  target : symbol.aliasTarget ≠ none → symbol.kind = .typeAlias
  flagged : symbol.isConst || symbol.isMutable || symbol.isParameter → symbol.kind = .value
  const : symbol.isConst → symbol.isMutable = false ∧ symbol.isParameter = false

lemma Symbol.Proper.plain {symbol : Symbol} (htarget : symbol.aliasTarget = none)
    (hflags : (symbol.isConst || symbol.isMutable || symbol.isParameter → symbol.kind = .value) ∧
      (symbol.isConst → symbol.isMutable = false ∧ symbol.isParameter = false)) : symbol.Proper :=
  ⟨absurd htarget, hflags.1, hflags.2⟩

lemma StmtKind.proper_of_typeSymbol? {kind : StmtKind} {symbol : Symbol}
    (h : kind.typeSymbol? = some symbol) : symbol.Proper := by
  cases kind with
  | record kind =>
    cases h
    exact .plain rfl (by simp)
  | enum =>
    cases h
    exact .plain rfl (by simp)
  | typeAlias =>
    cases h
    exact ⟨fun _ => rfl, by simp, by simp⟩
  | _ => cases h

def SymbolKind.isType : SymbolKind → Bool
  | .structType | .enumType | .classType | .typeAlias | .typeParam => true
  | .value | .function | .variant => false

lemma StmtKind.isType_of_typeSymbol? {kind : StmtKind} {symbol : Symbol}
    (h : kind.typeSymbol? = some symbol) : symbol.kind.isType := by
  cases kind with
  | record kind =>
    cases h
    cases kind <;> rfl
  | enum | typeAlias =>
    cases h
    rfl
  | _ => cases h

def StmtKind.typeParams : StmtKind → List Ident
  | .function decl => decl.typeParams
  | .record _ decl => decl.typeParams
  | .enum decl => decl.typeParams
  | _ => []

def Avoids (M : String → Prop) (params : List Ident) : Prop := ∀ param ∈ params, ¬M param.name

/-- The type parameters that come into scope in a type declaration, those of its methods included. -/
def Program.scopedParams (p : Program) (id : StmtId) : List Ident :=
  match (p.stmt id).kind with
  | .record _ decl => decl.typeParams ++
      (decl.methods.filter p.isFunction).flatMap fun method => (p.stmt method).kind.typeParams
  | .enum decl => decl.typeParams
  | _ => []

/-- An action that completes what is known of a declaration, the variants of an enum apart. -/
def Action.Declaring {β : Type} : Action β → Prop
  | .noteDeclaration _ _ | .setMembers _ _ | .setType _ _ | .retypeMethod _ _ _ => True
  | _ => False

def Program.isType (p : Program) (id : StmtId) : Bool := ((p.stmt id).kind.typeSymbol?).isSome

def StmtKind.declares : StmtKind → Bool
  | .function _ | .record _ _ | .enum _ | .typeAlias _ => true
  | _ => false

variable {id : StmtId} {value : Option ExprId}

namespace Rule

open Steps (Has Gives)

variable {N W α : Type} [AddMonoid N] {C : Contract Request W} {E : Effect N W} {k : N} {env : Env}
  {p : Program} {ids : List StmtId}

lemma fillFunctionType_of_declaring
    (hdeclaring : ∀ {β : Type} (action : Action β), action.Declaring → Has C E 0 (perform action))
    (id : SymbolId) (receiver : Option SymbolId) (ty : Ty) :
    Has C E 0 (fillFunctionType id receiver ty) := by
  refine (hdeclaring (.setType id ty) trivial).after fun _ => ?_
  cases receiver with
  | none => exact .pure ()
  | some owner => exact hdeclaring (.retypeMethod owner id ty) trivial

lemma declareType_of_act {name : String} {id : SymbolId} {span : Span} {w : W}
    (hsilent : ∀ {α : Type} {x : Rule α}, Silent True [] x → Has C E 0 x)
    (hact : (perform (.declareType name id)).Meets C w fun _ v => E.does 0 w v) :
    (declareType name id span).Meets C w fun _ v => E.does 0 w v := by
  refine hact.bind fun found v hv => ?_
  cases found with
  | none => exact hv
  | some existing =>
    have hreport := hsilent ((symbol_silent existing).bind fun other =>
      report_silent (.typeRedeclared name other.kind) span (.inl rfl)) v
    exact hreport.mono fun _ _ hu => E.after hv hu

/-- What declarations are registered by: to look symbols up, to report, to resolve types, and to declare
values and type parameters, none of those under a name in `M`. None of it has an effect, and work has
the same effect in a scope of its own. -/
structure Registry (M : String → Prop) (C : Contract Request W) (E : Effect N W) : Prop where
  symbol (id : SymbolId) : Has C E 0 (symbol id)
  declaredSymbol (id : StmtId) : Has C E 0 (perform (.declaredSymbol id))
  report (finding : Finding) (span : Span) : finding.code.isPlain → finding.code ≠ .aliasCycle →
    Has C E 0 (report finding span)
  resolve (t : TypeExpr) : Has C E 0 (resolveType t)
  allocate (symbol : Symbol) : symbol.Proper → symbol.kind.isType = false →
    Has C E 0 (perform (.allocate symbol))
  bindValue (name : String) (id : SymbolId) : Has C E 0 (perform (.declareValue name id))
  typeParam (param : Ident) : ¬M param.name → Has C E 0 (do
    let made ← perform (.allocate {
      name := param.name, kind := .typeParam, span := param.span, ty := some (.param param.name) })
    declareType param.name made param.span)
  scope {α : Type} {k : N} {x : Rule α} : Has C E k x → Has C E k (inScope x)

namespace Registry

variable {M : String → Prop} (h : Registry M C E)

include h

lemma declareValue (name : String) (id : SymbolId) (span : Span) :
    Has C E 0 (declareValue name id span) := by
  refine (h.bindValue name id).after fun found => ?_
  cases found with
  | none => exact .pure ()
  | some existing => exact (h.symbol existing).after fun _ => h.report _ span rfl nofun

lemma introduce (symbol : Symbol) (hproper : symbol.Proper) (hkind : symbol.kind.isType = false) :
    Has C E 0 (introduce symbol) :=
  (h.allocate symbol hproper hkind).after fun _ => h.declareValue _ _ _

lemma declareTypeParams {params : List Ident} (hparams : Avoids M params) :
    Has C E 0 (declareTypeParams params) :=
  .forM_zero fun param hparam => h.typeParam param (hparams param hparam)

lemma resolveOptional (t : Option TypeExpr) : Has C E 0 (resolveOptional t) := by
  cases t with
  | none => exact .pure none
  | some t => exact (h.resolve t).andPure

lemma paramInfos (namedOnly : Bool) (decls : List ParamDecl) :
    Has C E 0 (paramInfos namedOnly decls) := by
  induction decls generalizing namedOnly with
  | nil => exact .pure []
  | cons decl rest ih =>
    refine (h.resolveOptional decl.type).after fun written => ?_
    cases decl.kind with
    | separator => exact ih true
    | ordinary | variadic | kwVariadic => exact (ih _).andPure

section Functions

variable {decl : FunctionDecl} (hparams : Avoids M decl.typeParams)

include hparams

lemma functionHeader : Has C E 0 (functionHeader decl) := by
  refine h.scope ((h.declareTypeParams hparams).after fun _ => ?_)
  exact (h.paramInfos false decl.params).after fun _ => (h.resolveOptional decl.result).andPure

lemma functionSymbol (hnote : ∀ made, Has C E 0 (perform (.noteDeclaration id made))) :
    Has C E 0 (functionSymbol id decl) := by
  refine (h.declaredSymbol id).after fun found => ?_
  cases found with
  | some known => exact .pure known
  | none =>
    refine (h.functionHeader hparams).after fun header => ?_
    exact (h.allocate _ (.plain rfl (by simp)) rfl).after fun made => (hnote made).andPure

end Functions

lemma registerFunction {decl : FunctionDecl} {w : W} {P : SymbolId → W → Prop}
    (hsymbol : (Rule.functionSymbol id decl).Meets C w fun made v => E.does k w v ∧ P made v)
    (hP : ∀ {made u v}, E.does 0 u v → P made u → P made v) :
    (registerFunction id decl).Meets C w fun made v => E.does k w v ∧ P made v := by
  refine hsymbol.bind fun made u hu => (h.declareValue _ made _ u).bind fun _ v hv => ?_
  exact ⟨by simpa using E.add hu.1 hv, hP hv hu.2⟩

lemma fieldMembers (owner : String) (seen : List String) (fields : List FieldDecl) :
    Has C E 0 (fieldMembers owner seen fields) := by
  induction fields generalizing seen with
  | nil => exact .pure []
  | cons field rest ih =>
    refine (h.resolve field.type).after fun ty => ?_
    split
    · exact (h.report _ _ rfl (by simp [Finding.code])).after fun _ => ih seen
    · exact (ih _).andPure

variable {c : StmtId → N}

lemma methodMembers (hsymbol : ∀ id ∈ ids, ∀ decl, (p.stmt id).kind = .function decl →
      Has C E (c id) (Rule.functionSymbol id decl)) (owner : String) (seen : List String) :
    Has C E ((ids.filter p.isFunction).map c).sum (methodMembers p owner seen ids) := by
  induction ids generalizing seen with
  | nil => exact .pure []
  | cons id rest ih =>
    obtain ⟨hid, hrest⟩ := forall_mem_cons.mp hsymbol
    unfold Rule.methodMembers
    cases hkind : (p.stmt id).kind with
    | function decl =>
      rw [filter_cons_of_pos (by simp [isFunction, hkind]), map_cons, sum_cons]
      refine (hid decl hkind).bind fun method => ?_
      split
      · exact (h.report _ _ rfl (by simp [Finding.code])).after fun _ => ih hrest seen
      · exact (h.symbol method).after fun _ => (ih hrest _).andPure
    | _ =>
      rw [filter_cons_of_neg (by simp [isFunction, hkind])]
      exact ih hrest seen

lemma populateRecord {id : SymbolId} {decl : RecordDecl} (hparams : Avoids M decl.typeParams)
    (hset : ∀ members, Has C E 0 (perform (.setMembers id members)))
    (hsymbol : ∀ m ∈ decl.methods, ∀ function, (p.stmt m).kind = .function function →
      Has C E (c m) (Rule.functionSymbol m function)) :
    Has C E ((decl.methods.filter p.isFunction).map c).sum (populateRecord p id decl) := by
  refine (h.symbol id).after fun owner => .before (h.scope ?_) hset
  refine (h.declareTypeParams hparams).after fun _ => ?_
  exact (h.fieldMembers _ _ _).after fun fields => (h.methodMembers hsymbol _ _).andPure

lemma populateEnum {id : SymbolId} {decl : EnumDecl} (hparams : Avoids M decl.typeParams)
    (hset : ∀ variants, Has C E 0 (perform (.setVariants id variants))) :
    Has C E 0 (populateEnum id decl) := by
  refine .after (h.scope ?_) fun payloads => .after ?_ hset
  · refine (h.declareTypeParams hparams).after fun _ => ?_
    exact .mapM_zero fun variant _ => .mapM_zero fun t _ => h.resolve t
  · exact .mapM_zero fun entry _ => (h.allocate _ (.plain rfl (by simp [variantSymbol])) rfl).after
      fun made => (h.declareValue _ _ _).andPure

lemma populateType {declared : SymbolId} (hparams : Avoids M (p.scopedParams id))
    (hmembers : ∀ members, Has C E 0 (perform (.setMembers declared members)))
    (hvariants : ∀ decl, (p.stmt id).kind = .enum decl →
      ∀ variants, Has C E 0 (perform (.setVariants declared variants)))
    (hsymbol : ∀ m ∈ p.methodsOf id, ∀ function, (p.stmt m).kind = .function function →
      Has C E (c m) (Rule.functionSymbol m function))
    (halias : ∀ decl, (p.stmt id).kind = .typeAlias decl → Has C E 0 (expandDeclared declared)) :
    Has C E ((p.methodsOf id).map c).sum (populateType p id declared) := by
  unfold Rule.populateType
  unfold methodsOf at hsymbol ⊢
  unfold scopedParams at hparams
  cases hkind : (p.stmt id).kind with
  | record kind decl =>
    simp only [hkind] at hsymbol hparams
    refine h.populateRecord (fun param hparam => hparams param (mem_append_left _ hparam)) hmembers
      fun m hm function hfunction => hsymbol m ?_ function hfunction
    exact mem_filter.mpr ⟨hm, by simp [isFunction, hfunction]⟩
  | enum decl =>
    simp only [hkind] at hparams
    exact h.populateEnum hparams (hvariants decl hkind)
  | typeAlias decl => exact halias decl hkind
  | _ => exact .pure ()

lemma registerIfFunction
    (hsymbol : ∀ decl, (p.stmt id).kind = .function decl → Has C E (c id) (Rule.functionSymbol id decl)) :
    Has C E (if p.isFunction id then c id else 0) (registerIfFunction p id) := by
  unfold Rule.registerIfFunction isFunction
  cases hkind : (p.stmt id).kind with
  | function decl =>
    have hregister : Gives C E (c id) (Rule.registerFunction id decl) fun _ => True := fun w =>
      h.registerFunction ((hsymbol decl hkind).gives w) fun _ _ => trivial
    exact hregister.has.andPure
  | _ => exact .pure ()

end Registry

/-- What is known of the symbols of declarations. `D` holds of those that are found for them, and goes
on to hold. -/
structure Standing (C : Contract Request W) (E : Effect N W) (D : StmtId → SymbolId → W → Prop) :
    Prop where
  found (id : StmtId) (w : W) : (perform (.declaredSymbol id)).Meets C w fun found v =>
    E.does 0 w v ∧ ∀ made ∈ found, D id made v
  keeps {id : StmtId} {made : SymbolId} {w v : W} : E.does 0 w v → D id made w → D id made v

/-- To register a declaration has no effect. The symbols that are made for types are in `F`. -/
structure Declarative (C : Contract Request W) (E : Effect N W) (D : StmtId → SymbolId → W → Prop)
    (F : SymbolId → Prop) (p : Program) (id : StmtId) : Prop where
  symbol (decl : FunctionDecl) : (p.stmt id).kind = .function decl → ∀ w,
    (functionSymbol id decl).Meets C w fun made v => E.does 0 w v ∧ D id made v
  name : Gives C E 0 (registerTypeName p id) fun found => ∀ made ∈ found, F made
  populate {made : SymbolId} : F made → Has C E 0 (populateType p id made)
  typed {made : SymbolId} : (∀ decl, (p.stmt id).kind ≠ .function decl) → F made → ∀ w, D id made w

/-- Any silent rule has no effect, and neither has giving the name of a type to a symbol that was just
made. -/
structure Pieces (C : Contract Request W) (E : Effect N W) : Prop
    extends Registry (fun _ => False) C E where
  silent {α : Type} {x : Rule α} : Silent True [] x → Has C E 0 x
  nameType {α : Type} {k : N} {symbol : Symbol} {f : SymbolId → Rule α} : symbol.Proper →
    symbol.kind.isType → (∀ made, Has C E k (f made)) → Has C E k (do
      let made ← perform (.allocate symbol)
      declareType symbol.name made symbol.span
      f made)

namespace Pieces

lemma of_silent (silent : ∀ {α : Type} {x : Rule α}, Silent True [] x → Has C E 0 x)
    (allocate : ∀ symbol : Symbol, symbol.Proper → Has C E 0 (perform (.allocate symbol)))
    (bindValue : ∀ name id, Has C E 0 (perform (.declareValue name id)))
    (nameType : ∀ {α : Type} {k : N} {symbol : Symbol} {f : SymbolId → Rule α}, symbol.Proper →
      symbol.kind.isType → (∀ made, Has C E k (f made)) → Has C E k (do
        let made ← perform (.allocate symbol)
        declareType symbol.name made symbol.span
        f made))
    (scope : ∀ {α : Type} {k : N} {x : Rule α}, Has C E k x → Has C E k (inScope x)) : Pieces C E where
  silent := silent
  nameType := nameType
  symbol id := silent (symbol_silent id)
  declaredSymbol id := silent (perform_silent (.declaredSymbol id) trivial (.inl trivial))
  report finding span hplain _ := silent (report_silent finding span (.inl hplain))
  resolve t := silent (resolveType_does t).silent
  allocate symbol hproper _ := allocate symbol hproper
  bindValue := bindValue
  typeParam param _ := by
    have hproper : Symbol.Proper {
        name := param.name, kind := .typeParam, span := param.span, ty := some (.param param.name) } :=
      .plain rfl (by simp)
    simpa using nameType hproper rfl fun _ => .pure ()
  scope := scope

/-- Where nothing more is known of a symbol that was just made, it may be given any name. -/
lemma of_acts (silent : ∀ {α : Type} {x : Rule α}, Silent True [] x → Has C E 0 x)
    (allocate : ∀ symbol : Symbol, symbol.Proper → Has C E 0 (perform (.allocate symbol)))
    (bindValue : ∀ name id, Has C E 0 (perform (.declareValue name id)))
    (bindType : ∀ name id, Has C E 0 (perform (.declareType name id)))
    (scope : ∀ {α : Type} {k : N} {x : Rule α}, Has C E k x → Has C E k (inScope x)) : Pieces C E :=
  of_silent silent allocate bindValue (fun hproper _ hf => (allocate _ hproper).after fun made =>
    .after (fun w => declareType_of_act silent (bindType _ made w)) fun _ => hf made) scope

variable (h : Pieces C E)

include h

lemma declareSelf (receiver : Option SymbolId) (span : Span) :
    Has C E 0 (declareSelf receiver span) := by
  cases receiver with
  | none => exact .pure ()
  | some id => exact (h.symbol id).after fun owner => h.introduce _ (.plain rfl (by simp)) rfl

section Patterns

lemma declareBindings (σ : Substitution) (payload : List Ty) (bindings : List Ident) :
    Has C E 0 (declareBindings σ payload bindings) := by
  induction bindings generalizing payload with
  | nil =>
    exact .pure ()
  | cons binding rest ih =>
    exact (h.introduce _ (.plain rfl (by simp)) rfl).after fun _ => ih _

lemma variantPattern (variant : SymbolId) (bindings : List Ident) (span : Span)
    (matched : Option MatchedEnum) : Has C E 0 (variantPattern variant bindings span matched) := by
  refine (h.symbol variant).after fun declared => ?_
  refine (h.silent (checkOwner_does ..).silent).after fun belongs => ?_
  refine (h.silent (reportIf_silent _ _ _ (.inl rfl))).after fun _ => ?_
  exact (h.declareBindings _ _ _).andPure

lemma namePattern (name : String) (span : Span) (subject : Ty) (matched : Option MatchedEnum) :
    Has C E 0 (namePattern name span subject matched) := by
  refine (h.silent (lookupValue_silent name)).after fun found => ?_
  cases found with
  | none => exact (h.introduce _ (.plain rfl (by simp)) rfl).andPure
  | some id =>
    refine (h.symbol id).after fun declared => ?_
    split
    · exact h.variantPattern id [] span matched
    · exact (h.introduce _ (.plain rfl (by simp)) rfl).andPure

lemma checkPattern (options : Options) (pattern : Pattern) (subject : Ty)
    (matched : Option MatchedEnum) : Has C E 0 (checkPattern options pattern subject matched) := by
  unfold Rule.checkPattern
  cases pattern.kind with
  | wildcard => exact .pure _
  | name name => exact h.namePattern name pattern.span subject matched
  | literal literal =>
    refine (h.silent (literalType_does ..).silent).after fun ty => ?_
    split
    · exact .pure _
    · exact h.silent ((report_silent _ _ (.inl rfl)).bind fun _ => .pure _)
  | variant name bindings =>
    have hwrong (finding : Finding) : Has C E 0 (do
        report finding name.span; Rule.declareBindings .empty [] bindings; return Coverage.invalid) :=
      (h.silent (report_silent _ _ (.inr trivial))).after fun _ => (h.declareBindings _ _ _).andPure
    refine (h.silent (lookupValue_silent name.name)).after fun found => ?_
    cases found with
    | none => exact hwrong _
    | some id =>
      refine (h.symbol id).after fun declared => ?_
      split
      · exact h.variantPattern id bindings name.span matched
      · exact hwrong _

end Patterns

section Declarations

lemma registerTypeName (hnote : ∀ made, p.isType id → Has C E k (perform (.noteDeclaration id made))) :
    Has C E (if p.isType id then k else 0) (registerTypeName p id) := by
  unfold Rule.registerTypeName isType
  unfold isType at hnote
  cases hsymbol : (p.stmt id).kind.typeSymbol? with
  | none => exact .pure none
  | some declared =>
    exact h.nameType (proper_of_typeSymbol? hsymbol) (isType_of_typeSymbol? hsymbol) fun made =>
      (hnote made (by simp [hsymbol])).andPure

section Declaring

variable (hdeclaring : ∀ {β : Type} (action : Action β), action.Declaring → Has C E 0 (perform action))

include hdeclaring

lemma declareFunction (id : StmtId) (decl : FunctionDecl) : Has C E 0 (functionSymbol id decl) :=
  h.functionSymbol (fun _ _ => not_false) fun made => hdeclaring (.noteDeclaration id made) trivial

lemma populateDeclared {made : SymbolId} (hvariants : ∀ decl, (p.stmt id).kind = .enum decl →
      ∀ variants, Has C E 0 (perform (.setVariants made variants))) :
    Has C E 0 (Rule.populateType p id made) := by
  simpa using h.populateType (c := fun _ => 0) (fun _ _ => not_false)
    (fun members => hdeclaring (.setMembers made members) trivial) hvariants
    (fun m _ function _ => h.declareFunction hdeclaring m function)
    (fun _ _ => h.silent (expandDeclared_does made).silent)

lemma declarative {F : SymbolId → Prop}
    (hname : Gives C E 0 (Rule.registerTypeName p id) fun found => ∀ made ∈ found, F made)
    (hvariants : ∀ decl, (p.stmt id).kind = .enum decl →
      ∀ made variants, F made → Has C E 0 (perform (.setVariants made variants))) :
    Declarative C E (fun _ _ _ => True) F p id where
  symbol decl _ := (h.declareFunction hdeclaring id decl).gives
  name := hname
  populate hmade := h.populateDeclared hdeclaring fun decl hkind variants =>
    hvariants decl hkind _ variants hmade
  typed _ _ _ := trivial

lemma nameDeclared :
    Gives C E 0 (Rule.registerTypeName p id) fun found => ∀ made ∈ found, (fun _ => True) made := by
  have hname : Has C E 0 (Rule.registerTypeName p id) := by
    simpa using h.registerTypeName fun made _ => hdeclaring (.noteDeclaration id made) trivial
  exact fun w => (hname w).mono fun _ _ hv => ⟨hv, fun _ _ => trivial⟩

end Declaring

/-- If all symbols that are made are in `F`, then so are those made for types. -/
lemma registerTypeName_gives {F : SymbolId → Prop}
    (hnew : ∀ symbol : Symbol, symbol.Proper → Gives C E 0 (perform (.allocate symbol)) F)
    (hbind : ∀ name made, Has C E 0 (perform (.declareType name made)))
    (hnote : ∀ made, F made → Has C E 0 (perform (.noteDeclaration id made))) :
    Gives C E 0 (Rule.registerTypeName p id) fun found => ∀ made ∈ found, F made := by
  unfold Rule.registerTypeName
  cases hsymbol : (p.stmt id).kind.typeSymbol? with
  | none => exact .pure nofun
  | some declared =>
    intro w
    refine (hnew declared (proper_of_typeSymbol? hsymbol) w).bind fun made u hu => ?_
    refine (declareType_of_act h.silent (hbind _ made u)).bind fun _ v hv => ?_
    refine (hnote made hu.2 v).bind fun _ t ht => ⟨E.after (E.after hu.1 hv) ht, ?_⟩
    rintro _ ⟨⟩
    exact hu.2

lemma standing : Standing C E fun _ _ _ => True where
  found id w := (h.declaredSymbol id w).mono fun _ _ hv => ⟨hv, fun _ _ => trivial⟩
  keeps _ _ := trivial

variable {D : StmtId → SymbolId → W → Prop} {F : SymbolId → Prop}

lemma ensureRegistered (hD : Standing C E D) (hid : Declarative C E D F p id) (w : W) :
    (ensureRegistered p id).Meets C w fun found v => E.does 0 w v ∧ ∀ made ∈ found, D id made v := by
  refine (hD.found id w).bind fun found u hu => ?_
  cases found with
  | some known => exact hu
  | none =>
    dsimp only
    split
    · rename_i decl hkind
      refine (h.registerFunction (hid.symbol decl hkind u) hD.keeps).bind fun made v hv => ?_
      refine ⟨E.after hu.1 hv.1, ?_⟩
      rintro _ ⟨⟩
      exact hv.2
    · rename_i hkind
      refine (hid.name u).bind fun found v hv => ?_
      cases found with
      | none => exact ⟨E.after hu.1 hv.1, nofun⟩
      | some made =>
        have hmade := hv.2 made rfl
        refine (hid.populate hmade v).bind fun _ t ht => ⟨E.after hu.1 (E.after hv.1 ht), ?_⟩
        rintro _ ⟨⟩
        exact hid.typed hkind hmade t

lemma registerDeclarations (hids : ∀ id, Declarative C E D (fun _ => True) p id) (items : List StmtId) :
    Has C E 0 (registerDeclarations p items) := by
  have hnames : Has C E 0 (registerTypeNames p items) := by
    induction items with
    | nil => exact .pure []
    | cons id rest ih => exact (hids id).name.has.after fun _ => ih.andPure
  refine hnames.after fun types => .after (.forM_zero fun entry _ => (hids entry.1).populate trivial) fun _ => ?_
  refine .forM_zero fun id _ => ?_
  have hsymbol (decl : FunctionDecl) (hkind : (p.stmt id).kind = .function decl) :
      Has C E 0 (Rule.functionSymbol id decl) :=
    fun w => ((hids id).symbol decl hkind w).mono fun _ _ hv => hv.1
  simpa using h.registerIfFunction (c := fun _ => 0) hsymbol

end Declarations

end Pieces

/-- What is done for a function in the scope of its own. -/
abbrev functionScope (env : Env) (id : SymbolId) (decl : FunctionDecl) (receiver : Option SymbolId) :
    Rule (List ParamInfo × List Ty) := do
  declareTypeParams decl.typeParams
  declareSelf receiver decl.name.span
  let declared ← symbol id
  decl.params.forM (checkDefault env declared.params)
  declared.params.forM declareParam
  let current ← symbol id
  let returns ← checkBody (declaredResult decl current) decl.body
  return (declared.params, returns)

/-- The effects of the expressions and statements that are visited, besides those of the pieces, and which
of them may be. -/
structure Walk (C : Contract Request W) (E : Effect N W) where
  exprs : ExprId → Prop
  stmts : StmtId → Prop
  expr : ExprId → N
  stmt : StmtId → N
  pieces : Pieces C E
  visit {id : ExprId} (role : Role) : exprs id → Has C E (expr id) (visit role id)
  visitStmt {id : StmtId} : stmts id → Has C E (stmt id) (visitStmt id)

/-- Work has the same effect inside a function. -/
def Encloses (C : Contract Request W) (E : Effect N W) : Prop :=
  ∀ (declared : Option Ty) {k : N} {x : Rule Unit}, Has C E k x → Has C E k (do
    perform (.enterFunction declared)
    x
    perform .leaveFunction)

/-- In a scope of its own, work has the same effect where a name is narrowed. -/
def Narrows (C : Contract Request W) (E : Effect N W) : Prop :=
  ∀ {k : N} {x : Rule Unit} (name : String) (ty : Ty), Has C E k x →
    Has C E k (inScope do perform (.narrow name ty); x)

namespace Walk

variable (w : Walk C E) {condition : ExprId}

lemma visitOnly {id : ExprId} (h : w.exprs id) : Has C E (w.expr id) (visitOnly id) :=
  (w.visit _ h).andPure

lemma visitStmts (h : ∀ id ∈ ids, w.stmts id) :
    Has C E (ids.map w.stmt).sum (ids.forM Rule.visitStmt) :=
  .forM fun id hid => w.visitStmt (h id hid)

include w in
lemma andSilent {β : Type} {x : Rule α} {f : α → Rule β} (hx : Has C E k x)
    (hf : ∀ a, Silent True [] (f a)) : Has C E k (x >>= f) :=
  hx.before fun a => w.pieces.silent (hf a)

section Values

lemma checkAgainst {value : ExprId} (h : w.exprs value) (place : Place) (expected : Ty) :
    Has C E (w.expr value) (checkAgainst env place value expected) :=
  w.andSilent (w.visit _ h) fun _ => reportIf_silent _ _ _ (.inl rfl)

lemma checkLet {decl : LetDecl} (h : ∀ e ∈ decl.value.toList, w.exprs e) :
    Has C E (decl.value.toList.map w.expr).sum (checkLet env decl) := by
  refine .before ?_ fun ty => w.pieces.introduce _ (.plain rfl (by simp)) rfl
  refine (w.pieces.silent (resolveOptional_does decl.type).silent).after fun written => ?_
  cases hvalue : decl.value with
  | none => exact w.pieces.silent ((reportIf_silent _ _ _ (.inl rfl)).bind fun _ => .pure _)
  | some value =>
    have hvisit : w.exprs value := h value (by simp [hvalue])
    rw [Option.toList_some, map_singleton, sum_singleton]
    cases written with
    | none => exact w.visit _ hvisit
    | some declared => exact (w.checkAgainst hvisit _ _).andPure

lemma checkCondition (h : w.exprs condition) :
    Has C E (w.expr condition) (checkCondition env condition) :=
  w.andSilent (w.visit _ h) fun _ => reportIf_silent _ _ _ (.inl rfl)

lemma returnedType (h : ∀ e ∈ value.toList, w.exprs e) (hint : Option Ty) (span : Span) :
    Has C E (value.toList.map w.expr).sum (returnedType env value hint span) := by
  cases value with
  | none => exact .pure _
  | some value =>
    rw [Option.toList_some, map_singleton, sum_singleton]
    exact (w.visit _ (h value (by simp))).andPure

lemma checkReturn (hnote : ∀ ty, Has C E 0 (perform (.noteReturn ty)))
    (h : ∀ e ∈ value.toList, w.exprs e) (span : Span) :
    Has C E (value.toList.map w.expr).sum (checkReturn env value span) := by
  refine (w.pieces.silent (perform_silent .currentFunction trivial (.inl trivial))).after fun context => ?_
  cases context with
  | none =>
    refine (w.pieces.silent (report_silent _ _ (.inl rfl))).after fun _ => ?_
    exact .forM fun e he => w.visitOnly (h e he)
  | some context =>
    refine (w.returnedType h context.declared span).before fun found => ?_
    cases context.declared with
    | none => exact hnote found.1
    | some declared => exact (w.pieces.silent (reportIf_silent _ _ _ (.inl rfl))).after fun _ => hnote found.1

end Values

section Blocks

variable {block : Block}

lemma checkBlock (h : ∀ c ∈ block.statements, w.stmts c) :
    Has C E (block.statements.map w.stmt).sum (checkBlock block) :=
  w.pieces.scope (w.visitStmts h)

/-- What a condition says of a name is gone after the branch, with the scope of the branch. -/
lemma checkBranch (hnarrow : Narrows C E) (h : ∀ c ∈ block.statements, w.stmts c)
    (narrowed : Option (String × Ty)) :
    Has C E (block.statements.map w.stmt).sum (checkBranch narrowed block) := by
  cases narrowed with
  | none => exact w.pieces.scope ((Has.pure ()).after fun _ => w.visitStmts h)
  | some entry => exact hnarrow entry.1 entry.2 (w.visitStmts h)

lemma checkIf (hnarrow : Narrows C E) {alternative : Option Block}
    (hcondition : w.exprs condition) (hconsequent : ∀ c ∈ block.statements, w.stmts c)
    (halternative : ∀ c ∈ alternative.toList.flatMap (·.statements), w.stmts c) :
    Has C E (w.expr condition +
      ((block.statements ++ alternative.toList.flatMap (·.statements)).map w.stmt).sum)
      (checkIf env condition block alternative) := by
  refine (w.checkCondition hcondition).bind fun _ => ?_
  refine (w.pieces.silent (findNarrowing_does ..).silent).after fun narrowing => ?_
  rw [map_append, sum_append]
  refine (w.checkBranch hnarrow hconsequent _).bind fun _ => ?_
  cases alternative with
  | none => exact .pure ()
  | some other => simpa using w.checkBranch hnarrow (by simpa using halternative) _

lemma checkFor {iterable : ExprId} (hiterable : w.exprs iterable)
    (hbody : ∀ c ∈ block.statements, w.stmts c) (binding : Ident) :
    Has C E (w.expr iterable + (block.statements.map w.stmt).sum) (checkFor binding iterable block) := by
  refine (w.visitOnly hiterable).bind fun _ => w.pieces.scope ?_
  exact (w.pieces.introduce _ (.plain rfl (by simp)) rfl).after fun _ => w.visitStmts hbody

lemma checkMatch {subject : ExprId} {arms : List MatchArm} (hsubject : w.exprs subject)
    (harms : ∀ c ∈ arms.flatMap (·.body.statements), w.stmts c) (span : Span) :
    Has C E (w.expr subject + ((arms.flatMap (·.body.statements)).map w.stmt).sum)
      (checkMatch env subject arms span) := by
  refine (w.visit _ hsubject).bind fun subjectType => ?_
  refine (w.pieces.silent (subjectEnum_does subjectType).silent).after fun matched => ?_
  rw [map_flatMap, flatMap_def, sum_flatten, map_map]
  refine w.andSilent (.mapM fun arm harm => w.pieces.scope ?_) fun _ =>
    (checkExhaustive_does ..).silent
  refine (w.pieces.checkPattern _ _ _ _).after fun _ => (w.visitStmts fun c hc => ?_).andPure
  exact harms c (mem_flatMap.mpr ⟨arm, harm, hc⟩)

end Blocks

section Functions

variable {decl : FunctionDecl}

lemma checkDefault {param : ParamDecl} (h : ∀ e ∈ param.default.toList, w.exprs e)
    (params : List ParamInfo) :
    Has C E (param.default.toList.map w.expr).sum (checkDefault env params param) := by
  unfold Rule.checkDefault
  cases hdefault : param.default with
  | none => exact .pure ()
  | some value =>
    rw [Option.toList_some, map_singleton, sum_singleton]
    exact w.checkAgainst (h value (by simp [hdefault])) _ _

lemma checkDefaults {decls : List ParamDecl} (h : ∀ e ∈ decls.filterMap (·.default), w.exprs e)
    (params : List ParamInfo) :
    Has C E ((decls.filterMap (·.default)).map w.expr).sum (decls.forM (Rule.checkDefault env params)) := by
  rw [filterMap_eq_flatMap_toList] at h ⊢
  rw [map_flatMap, flatMap_def, sum_flatten, map_map]
  refine .forM fun decl hdecl => w.checkDefault (fun e he => ?_) params
  exact h e (mem_flatMap.mpr ⟨decl, hdecl, he⟩)

lemma checkBody (hwithin : Encloses C E) (hbody : ∀ c ∈ (function decl).children, w.stmts c)
    (declared : Option Ty) :
    Has C E ((function decl).children.map w.stmt).sum (checkBody declared decl.body) :=
  hwithin declared (w.visitStmts hbody)

lemma functionScope (hexprs : ∀ e ∈ (function decl).exprs, w.exprs e)
    (hbody : ∀ declared, Has C E k (Rule.checkBody declared decl.body)) (id : SymbolId)
    (receiver : Option SymbolId) :
    Has C E (((function decl).exprs.map w.expr).sum + k) (functionScope env id decl receiver) := by
  refine (w.pieces.declareTypeParams fun _ _ => not_false).after fun _ => ?_
  refine (w.pieces.declareSelf receiver _).after fun _ => ?_
  refine (w.pieces.symbol id).after fun declared => ?_
  refine (w.checkDefaults hexprs declared.params).bind fun _ => ?_
  refine .after (.forM_zero fun param _ => w.pieces.introduce _ (.plain rfl (by simp)) rfl) fun _ => ?_
  refine (w.pieces.symbol id).after fun current => .andPure ?_
  exact hbody _

lemma checkFunction (hexprs : ∀ e ∈ (function decl).exprs, w.exprs e)
    (hbody : ∀ declared, Has C E k (Rule.checkBody declared decl.body)) {id : SymbolId}
    {receiver : Option SymbolId} (hfill : ∀ ty, Has C E 0 (fillFunctionType id receiver ty)) :
    Has C E (((function decl).exprs.map w.expr).sum + k) (checkFunction env id decl receiver) := by
  refine .before (w.pieces.scope (w.functionScope hexprs hbody id receiver)) fun found => ?_
  dsimp only
  split
  · exact .pure ()
  · exact hfill _

end Functions

lemma program {D : StmtId → SymbolId → W → Prop}
    (hids : ∀ id, Declarative C E D (fun _ => True) env.program id)
    (hitems : ∀ id ∈ env.program.items, w.stmts id) (imports : List Ident) :
    Has C E (env.program.items.map w.stmt).sum (program env imports) := by
  refine .after (.forM_zero fun binding _ => w.pieces.introduce _ (.plain rfl (by simp)) rfl) fun _ => ?_
  exact (w.pieces.registerDeclarations hids _).after fun _ => w.visitStmts hitems

/-- A statement that declares no function and no type. -/
lemma plainStatement (hnote : (∃ value, (env.program.stmt id).kind = .ret value) →
      ∀ ty, Has C E 0 (perform (.noteReturn ty)))
    (hnarrow : (∃ condition consequent alternative,
      (env.program.stmt id).kind = .branch condition consequent alternative) → Narrows C E)
    (hexprs : ∀ e ∈ (env.program.stmt id).kind.exprs, w.exprs e)
    (hchildren : ∀ c ∈ (env.program.stmt id).kind.children, w.stmts c)
    (hdeclares : (env.program.stmt id).kind.declares = false) :
    Has C E (((env.program.stmt id).kind.exprs.map w.expr).sum +
      ((env.program.stmt id).kind.children.map w.stmt).sum) (statement env id) := by
  unfold Rule.statement
  dsimp only
  cases hkind : (env.program.stmt id).kind with
  | function | record | enum | typeAlias => simp [hkind, declares] at hdeclares
  | breakLoop | continueLoop =>
    simpa [StmtKind.exprs, StmtKind.children] using Has.pure (C := C) (E := E) ()
  | branch condition consequent alternative =>
    rw [hkind] at hexprs hchildren
    obtain ⟨hconsequent, halternative⟩ := forall_mem_append.mp hchildren
    simpa [StmtKind.exprs, StmtKind.children] using
      w.checkIf (hnarrow ⟨_, _, _, hkind⟩) (hexprs condition (.head _)) hconsequent halternative
  | bind decl =>
    rw [hkind] at hexprs
    simpa [StmtKind.exprs, StmtKind.children] using w.checkLet hexprs
  | ret value =>
    rw [hkind] at hexprs
    simpa [StmtKind.exprs, StmtKind.children] using w.checkReturn (hnote ⟨_, hkind⟩) hexprs _
  | whileLoop condition body =>
    rw [hkind] at hexprs hchildren
    simpa [StmtKind.exprs, StmtKind.children] using
      (w.checkCondition (hexprs condition (.head _))).bind fun _ => w.checkBlock hchildren
  | forLoop binding iterable body =>
    rw [hkind] at hexprs hchildren
    simpa [StmtKind.exprs, StmtKind.children] using
      w.checkFor (hexprs iterable (.head _)) hchildren binding
  | cases subject arms =>
    rw [hkind] at hexprs hchildren
    simpa [StmtKind.exprs, StmtKind.children] using
      w.checkMatch (hexprs subject (.head _)) hchildren _
  | expr value =>
    rw [hkind] at hexprs
    simpa [StmtKind.exprs, StmtKind.children] using w.visitOnly (hexprs value (.head _))
  | block block =>
    rw [hkind] at hchildren
    simpa [StmtKind.exprs, StmtKind.children] using w.checkBlock hchildren

/-- What a statement amounts to, if each function that it declares amounts to `g` of it. -/
def total (g : StmtId → N) (p : Program) (id : StmtId) : N :=
  match (p.stmt id).kind with
  | .function _ => g id
  | .record _ decl => (decl.methods.map g).sum
  | kind => (kind.exprs.map w.expr).sum + (kind.children.map w.stmt).sum

/-- A function is checked with a symbol that stands for it, and so has the record that a method
belongs to. -/
lemma statement {g : StmtId → N} {D : StmtId → SymbolId → W → Prop} {F : SymbolId → Prop}
    (hplain : (env.program.stmt id).kind.declares = false →
      Has C E (((env.program.stmt id).kind.exprs.map w.expr).sum +
        ((env.program.stmt id).kind.children.map w.stmt).sum) (statement env id))
    (hD : Standing C E D)
    (hid : (env.program.stmt id).kind.declares → Declarative C E D F env.program id)
    (hfunction : (env.program.stmt id).kind.declares → ∀ m decl,
      m = id ∨ m ∈ env.program.methodsOf id → (env.program.stmt m).kind = .function decl →
      ∀ made receiver v, D m made v → (∀ owner ∈ receiver, ∃ u, D id owner u) →
        (Rule.checkFunction env made decl receiver).Meets C v fun _ u => E.does (g m) v u)
    (hskip : ∀ m, Has C E (g m) (pure ())) (hnone : Has C E (w.total g env.program id) (pure ())) :
    Has C E (w.total g env.program id) (statement env id) := by
  by_cases hdeclares : (env.program.stmt id).kind.declares
  · have hensure := w.pieces.ensureRegistered hD (hid hdeclares)
    have hfunction := hfunction hdeclares
    unfold total at hnone ⊢
    unfold Rule.statement
    dsimp only
    intro v
    cases hkind : (env.program.stmt id).kind with
    | function decl =>
      refine (hensure v).bind fun found u hu => ?_
      cases found with
      | none => exact (hskip id u).mono fun _ _ ht => E.after hu.1 ht
      | some function =>
        refine (hfunction id decl (.inl rfl) hkind function none u (hu.2 function rfl) nofun).mono ?_
        exact fun _ _ ht => E.after hu.1 ht
    | record kind decl =>
      simp only [hkind] at hnone
      refine (hensure v).bind fun found u hu => ?_
      cases found with
      | none => exact (hnone u).mono fun _ _ ht => E.after hu.1 ht
      | some owner =>
        have howner : ∀ other ∈ some owner, ∃ u, D id other u := fun other hother => ⟨u, hu.2 other hother⟩
        refine Steps.Meets.mono (w.pieces.scope ((w.pieces.declareTypeParams fun _ _ => not_false).after
          fun _ => .forM fun m hm v => ?_) u) fun _ _ ht => E.after hu.1 ht
        unfold checkMethod
        cases hmethod : (env.program.stmt m).kind with
        | function function =>
          refine (hD.found m v).bind fun found u hu => ?_
          cases found with
          | none => exact (hskip m u).mono fun _ _ ht => E.after hu.1 ht
          | some method =>
            refine (hfunction m function (.inr ?_) hmethod method (some owner) u (hu.2 method rfl)
              howner).mono fun _ _ ht => E.after hu.1 ht
            simpa [methodsOf, isFunction, hkind, hmethod] using hm
        | _ => exact hskip m v
    | enum | typeAlias =>
      have hdone : (do let _ ← ensureRegistered env.program id : Rule Unit).Meets C v
          fun _ u => E.does 0 v u := (hensure v).bind fun _ _ hu => hu.1
      simpa [StmtKind.exprs, StmtKind.children] using hdone
    | _ => simp [hkind, declares] at hdeclares
  · have hplain := hplain (by simpa using hdeclares)
    unfold total
    cases hkind : (env.program.stmt id).kind with
    | function | record => simp [hkind, declares] at hdeclares
    | _ => simpa [hkind] using hplain

end Walk

end Rule

end StaticTyping
