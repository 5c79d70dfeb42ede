import StaticTyping.Proofs.Mirror.Declaration

/-! Which names a declaration at top level makes known. Registering it declares the names that stand in
it, and checking it declares none: what it is made of is checked in scopes of their own. -/

namespace StaticTyping

open Multiset

/-- In the innermost scope nothing changes but names in `names`, and around it nothing at all, except
that names may be narrowed no longer. -/
structure Outline.Introduces (names : Multiset String) (before after : Outline) : Prop where
  values {name : String} : name ∉ names →
    after.scopes.inner.values.lookup name = before.scopes.inner.values.lookup name
  types : after.scopes.inner.types = before.scopes.inner.types
  narrowed (name : String) (ty : Ty) : after.scopes.inner.narrowed.lookup name = some ty →
    before.scopes.inner.narrowed.lookup name = some ty
  outer : KeepsAll before.scopes.outer after.scopes.outer
  contexts : after.contexts = before.contexts

namespace Outline.Introduces

variable {M N : Multiset String} {a b c : Outline}

lemma of_keeps (hscopes : KeepsAll a.scopes.frames b.scopes.frames)
    (hcontexts : b.contexts = a.contexts) : Introduces N a b := by
  cases hscopes with
  | cons hinner houter =>
    exact ⟨fun _ => by rw [hinner.values], hinner.types, hinner.narrowed, houter, hcontexts⟩

lemma refl (w : Outline) : Introduces N w w := of_keeps (.refl _) rfl

lemma mono (h : Introduces M a b) (hMN : ∀ name ∈ M, name ∈ N) : Introduces N a b :=
  { h with values := fun hname => h.values fun hmem => hname (hMN _ hmem) }

lemma trans (hab : Introduces N a b) (hbc : Introduces N b c) : Introduces N a c where
  values hname := (hbc.values hname).trans (hab.values hname)
  types := hbc.types.trans hab.types
  narrowed name ty h := hab.narrowed name ty (hbc.narrowed name ty h)
  outer := hab.outer.trans hbc.outer
  contexts := hbc.contexts.trans hab.contexts

lemma add (hab : Introduces M a b) (hbc : Introduces N b c) : Introduces (M + N) a c :=
  (hab.mono fun _ h => mem_add.mpr (.inl h)).trans (hbc.mono fun _ h => mem_add.mpr (.inr h))

lemma declareValue (w : Outline) (name : String) (id : SymbolId) :
    Introduces {name} w ((Action.declareValue name id).outline w) := by
  simp only [Action.outline, ScopeStack.declareValue]
  cases w.scopes.inner.values.lookup name with
  | some existing => exact refl w
  | none =>
    refine ⟨fun {other} hother => ?_, rfl, (Frame.Keeps.forget w.scopes.inner name).narrowed, .refl _,
      rfl⟩
    have hne : other ≠ name := by simpa using hother
    simp [List.lookup_cons, beq_false_of_ne hne]

end Outline.Introduces

def introducing : Effect (Multiset String) Outline where
  does := Outline.Introduces
  zero := Outline.Introduces.refl
  add := Outline.Introduces.add

namespace Rule

variable {α β : Type} {p : Program} {env : Env} {B : StmtId → Prop} {N : Multiset String}
  {x : Rule α}

/-- The rule declares no names of values but those in `N`, and nothing else that stays. -/
abbrev Introduces (p : Program) (B : StmtId → Prop) (N : Multiset String) (x : Rule α) : Prop :=
  Steps.Has (checking p B) introducing N x

lemma Silent.introduces (hx : Silent True [] x) : Introduces p B 0 x :=
  fun w => (hx.meets w).mono fun _ _ hv => hv ▸ .refl w

lemma inScope_introduces {ready : Set StmtId → Prop} {K : Multiset ExprId}
    (h : Steps.Has (checking p B) (doing ready) K x) : Introduces p B 0 (inScope x) := by
  intro w
  refine (perform_meets .pushScope trivial w).bind ?_
  rintro _ _ ⟨rfl, -⟩
  refine (h _).bind fun a u hu => (perform_meets .popScope trivial u).bind ?_
  rintro _ _ ⟨rfl, -⟩
  exact .of_keeps (ScopeStack.keeps_pop hu.outer) hu.contexts

lemma Registers.does {M : Multiset StmtId} (h : Registers p B M x) :
    Steps.Has (checking p B) (doing fun _ => True) 0 x :=
  fun w => (h w).mono fun _ _ hv => hv.toDoes

lemma declareValue_introduces (name : String) (id : SymbolId) (span : Span) :
    Introduces p B {name} (declareValue name id span) := by
  have hact : Introduces p B {name} (perform (.declareValue name id)) :=
    perform_has (.declareValue name id) trivial fun w => .declareValue w name id
  refine hact.before fun found => ?_
  cases found with
  | none => exact .pure ()
  | some existing => exact ((symbol_silent existing).bind fun _ => report_silent _ _ (.inl rfl)).introduces

lemma allocate_introduces (symbol : Symbol) : Introduces p B 0 (perform (.allocate symbol)) :=
  perform_has (.allocate symbol) trivial Outline.Introduces.refl

lemma functionHeader_introduces (decl : FunctionDecl) : Introduces p B 0 (functionHeader decl) := by
  refine inScope_introduces (Registers.does (M := 0) ?_)
  refine (registers_pieces.declareTypeParams fun _ _ => not_false).before fun _ => Silent.registers ?_
  exact (paramInfos_gives ..).silent.bind fun _ => (resolveOptional_does _).silent.bind fun _ => .pure _

lemma registerFunction_introduces (id : StmtId) (decl : FunctionDecl) :
    Introduces p B {decl.name.name} (registerFunction id decl) := by
  refine .after ?_ fun made => (declareValue_introduces _ _ _).andPure
  refine (perform_silent (.declaredSymbol id) trivial (.inl trivial)).introduces.after fun found => ?_
  cases found with
  | some known => exact .pure known
  | none =>
    refine (functionHeader_introduces decl).after fun header => (allocate_introduces _).after fun made => ?_
    -- That the statement is declared now shows in no scope.
    have hnote : Introduces p B 0 (perform (.noteDeclaration id made)) :=
      perform_has (.noteDeclaration id made) trivial fun _ => .of_keeps (.refl _) rfl
    exact hnote.andPure

lemma populateRecord_introduces (id : SymbolId) (decl : RecordDecl) :
    Introduces p B 0 (populateRecord p id decl) := by
  refine (symbol_silent id).introduces.after fun owner => ?_
  refine Steps.Has.after (inScope_introduces (Registers.does
    (M := (decl.methods.filter p.isFunction : List StmtId)) ?_)) fun members => ?_
  · refine (registers_pieces.declareTypeParams fun _ _ => not_false).after fun _ => ?_
    exact (fieldMembers_gives ..).silent.registers.after fun fields => (methodMembers_registers _ _ _).andPure
  · exact perform_has (.setMembers id members) trivial Outline.Introduces.refl

lemma populateEnum_introduces (id : SymbolId) (decl : EnumDecl) :
    Introduces p B (decl.variants.map (·.name) : List String) (populateEnum id decl) := by
  refine Steps.Has.after (inScope_introduces (Registers.does (M := 0) ?_)) fun payloads => ?_
  · refine (registers_pieces.declareTypeParams fun _ _ => not_false).before fun _ => ?_
    exact (Account.Does.mapM_silent fun variant _ => .mapM_silent fun t _ => resolveType_does t).silent.registers
  · refine .before ?_ fun variants =>
      perform_has (.setVariants id variants) trivial Outline.Introduces.refl
    have hvariants (entries : List (VariantDecl × List Ty)) :
        Introduces p B (entries.map fun entry => {entry.1.name}).sum (entries.mapM fun entry => do
          let made ← perform (.allocate (variantSymbol id decl entry.1 entry.2))
          declareValue entry.1.name made entry.1.span
          return made) :=
      .mapM fun entry _ => (allocate_introduces _).after fun made =>
        (declareValue_introduces _ _ _).andPure
    refine fun w => (hvariants _ w).mono fun _ _ hv => hv.mono fun name hname => ?_
    obtain ⟨entry, hentry, hmem⟩ := mem_sum_map.mp hname
    rw [mem_singleton.mp hmem]
    exact mem_coe.mpr (List.mem_map_of_mem (List.of_mem_zip hentry).1)

lemma populateType_introduces (id : StmtId) (declared : SymbolId) :
    Introduces p B ((p.stmt id).kind.valueNames : List String) (populateType p id declared) := by
  unfold populateType
  cases hkind : (p.stmt id).kind with
  | record kind decl => exact populateRecord_introduces declared decl
  | enum decl => exact populateEnum_introduces declared decl
  | typeAlias decl => exact (expandDeclared_does declared).silent.introduces
  | _ => exact fun w => .refl w

lemma registerIfFunction_introduces (id : StmtId) :
    Introduces p B ((p.stmt id).kind.valueNames : List String) (registerIfFunction p id) := by
  unfold registerIfFunction
  cases hkind : (p.stmt id).kind with
  | function decl => exact (registerFunction_introduces id decl).andPure
  | _ => exact fun w => .refl w

end Rule

end StaticTyping
