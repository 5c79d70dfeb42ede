import StaticTyping.Proofs.Stored.Expr
import StaticTyping.Rule.Registration

/-! The symbols that declarations make are sound. -/

namespace StaticTyping

open List

variable {n m : Nat} {id : SymbolId}

lemma Member.Sound.mono {member : Member} (h : member.Sound {} n) (hnm : n ≤ m) : member.Sound {} m :=
  ⟨.mono h.ty hnm, fun id hid => (h.method id hid).trans_le hnm⟩

lemma StmtKind.typeSymbol_sound {kind : StmtKind} {symbol : Symbol}
    (h : kind.typeSymbol? = some symbol) : symbol.Sound {} n := by
  cases kind with
  | record | enum | typeAlias =>
    cases h
    exact .ofType nofun rfl rfl rfl rfl rfl
  | _ => cases h

namespace Rule

lemma declareTypeParams_grows (params : List Ident) :
    Grows n (declareTypeParams params) fun _ _ => True := by
  refine .forM fun param _ m _ => ?_
  refine .bind (allocate_grows ?_) fun id k _ hid => ?_
  · exact .ofType (hint_sound (.param _)) rfl rfl rfl rfl rfl
  · exact (declareType_answers hid param.name param.span).grows fun _ _ => trivial

lemma paramInfos_answers (namedOnly : Bool) (decls : List ParamDecl) :
    Answers {} n (paramInfos namedOnly decls) fun params => ∀ param ∈ params, param.ty.Sound {} n := by
  induction decls generalizing namedOnly with
  | nil => exact .pure nofun
  | cons decl rest ih =>
    refine (resolveOptional_answers decl.type).bind fun written hwritten => ?_
    have hty : (written.getD .unknown).Sound {} n := .getD hwritten
    cases decl.kind with
    | separator => exact ih true
    | ordinary =>
      exact (ih namedOnly).bind fun _ hothers => .pure (forall_mem_cons.mpr ⟨hty, hothers⟩)
    | variadic =>
      refine (ih true).bind fun _ hothers => .pure ?_
      exact forall_mem_cons.mpr ⟨.array hty, hothers⟩
    | kwVariadic =>
      refine (ih namedOnly).bind fun _ hothers => .pure ?_
      exact forall_mem_cons.mpr ⟨.map (.prim _) hty, hothers⟩

lemma functionHeader_grows (decl : FunctionDecl) : Grows n (functionHeader decl) fun m header =>
      (∀ param ∈ header.1, param.ty.Sound {} m) ∧ ∀ t ∈ header.2, t.Sound {} m := by
  refine inScope_grows ?_
  refine (declareTypeParams_grows decl.typeParams).bind fun _ m _ _ => ?_
  refine (paramInfos_answers false decl.params).bind_grows fun params hparams => ?_
  exact (resolveOptional_answers decl.result).bind_grows fun _ hresult => .pure ⟨hparams, hresult⟩

lemma functionSymbol_grows (id : StmtId) (decl : FunctionDecl) :
    Grows n (functionSymbol id decl) fun m made => made.index < m := by
  refine (perform_answers (E := {}) (.declaredSymbol id) trivial rfl).bind_grows fun found hfound => ?_
  cases found with
  | some known => exact .pure (hfound known rfl)
  | none =>
    refine (functionHeader_grows decl).bind fun header k _ hheader => ?_
    refine .bind (allocate_grows ⟨?_, hheader.1, nofun, nofun, nofun, nofun⟩) ?_
    · intro t ht
      obtain ⟨result, hresult, rfl⟩ := Option.map_eq_some_iff.mp ht
      exact .fn (forall_mem_map.mpr hheader.1) (hheader.2 result hresult)
    · intro made m _ hmade
      exact (perform_answers (.noteDeclaration id made) hmade rfl).seq_grows fun _ => .pure hmade

lemma registerFunction_grows (id : StmtId) (decl : FunctionDecl) :
    Grows n (registerFunction id decl) fun m made => made.index < m := by
  refine (functionSymbol_grows id decl).bind fun made m _ hmade => ?_
  exact (declareValue_answers hmade ..).seq_grows fun _ => .pure hmade

lemma registerTypeName_grows (p : Program) (id : StmtId) :
    Grows n (registerTypeName p id) fun m found => ∀ made ∈ found, made.index < m := by
  unfold registerTypeName
  split
  · exact .pure nofun
  · rename_i declared hdeclared
    refine (allocate_grows (StmtKind.typeSymbol_sound hdeclared)).bind fun made m _ hmade => ?_
    refine (declareType_answers hmade ..).seq_grows fun _ => ?_
    refine (perform_answers (.noteDeclaration id made) hmade rfl).seq_grows fun _ => .pure ?_
    rintro _ ⟨⟩
    exact hmade

lemma fieldMembers_answers (owner : String) (seen : List String) (fields : List FieldDecl) :
    Answers {} n (fieldMembers owner seen fields) fun members => ∀ m ∈ members, m.Sound {} n := by
  induction fields generalizing seen with
  | nil => exact .pure nofun
  | cons field rest ih =>
    refine (resolveType_answers fun hno => (hno trivial).elim).bind fun ty hty => ?_
    split
    · exact (report_answers ..).seq fun _ => ih seen
    · refine (ih (field.name :: seen)).bind fun others hothers => .pure ?_
      exact forall_mem_cons.mpr ⟨⟨hty, nofun⟩, hothers⟩

lemma methodMembers_grows (p : Program) (owner : String) (seen : List String) (ids : List StmtId) :
    Grows n (methodMembers p owner seen ids) fun k members => ∀ m ∈ members, m.Sound {} k := by
  fun_induction methodMembers p owner seen ids generalizing n with
  | case1 seen => exact .pure nofun
  | case2 seen id rest decl hkind hseen hnew =>
    refine (functionSymbol_grows id decl).bind fun method k _ hmethod => ?_
    split
    · exact (report_answers ..).seq_grows fun _ => hseen
    · refine (symbol_answers hmethod).bind_grows fun declared hdeclared => ?_
      refine hnew.bind fun others j hj hothers => .pure ?_
      refine forall_mem_cons.mpr ⟨.mono ⟨hdeclared.tyOrUnknown, ?_⟩ hj, hothers⟩
      rintro _ ⟨⟩
      exact hmethod
  | case3 seen id rest hkind ih => exact ih

lemma populateRecord_grows (hid : id.index < n) (p : Program) (decl : RecordDecl) :
    Grows n (populateRecord p id decl) fun _ _ => True := by
  refine (symbol_answers hid).seq_grows fun owner => ?_
  have hmembers : Grows n (inScope do
      declareTypeParams decl.typeParams
      let fields ← fieldMembers owner.name [] decl.fields
      let methods ← methodMembers p owner.name (fields.map (·.name)) decl.methods
      return fields ++ methods) fun k members => ∀ m ∈ members, m.Sound {} k := by
    refine inScope_grows ?_
    refine (declareTypeParams_grows decl.typeParams).bind fun _ m _ _ => ?_
    refine (fieldMembers_answers ..).bind_grows fun fields hfields => ?_
    refine (methodMembers_grows ..).bind fun methods k hk hmethods => .pure ?_
    exact forall_mem_append.mpr ⟨fun m hm => (hfields m hm).mono hk, hmethods⟩
  refine hmembers.bind fun members k hk hsound => ?_
  exact (perform_grows (.setMembers id members) ⟨trivial, hid.trans_le hk, hsound⟩).done

lemma variantSymbol_sound (hid : id.index < n) {payload : List Ty}
    (hpayload : ∀ t ∈ payload, t.Sound {} n) (decl : EnumDecl) (variant : VariantDecl) :
    (variantSymbol id decl variant payload).Sound {} n := by
  have hid' : ∀ symbol ∈ some id, symbol.index < n := by
    rintro _ ⟨⟩
    exact hid
  have henum : (Ty.bare decl.name.name (some id)).Sound {} n := .named hid' nofun
  refine ⟨hint_sound ?_, nofun, nofun, hpayload, hid', nofun⟩
  split
  · exact henum
  · exact .fn hpayload henum

lemma populateEnum_grows (hid : id.index < n) (decl : EnumDecl) :
    Grows n (populateEnum id decl) fun _ _ => True := by
  have hpayloads : Grows n (inScope do
      declareTypeParams decl.typeParams
      decl.variants.mapM fun variant => variant.payload.mapM resolveType) fun m payloads =>
        ∀ payload ∈ payloads, ∀ t ∈ payload, t.Sound {} m := by
    refine inScope_grows ?_
    refine (declareTypeParams_grows decl.typeParams).bind fun _ m _ _ => ?_
    refine Answers.grows (.mapM fun variant _ => ?_) fun _ h => h.1
    refine (Answers.mapM fun t _ => resolveType_answers fun hno => (hno trivial).elim).mono ?_
    exact fun _ h => h.1
  refine hpayloads.bind fun payloads m hm hpayload => ?_
  refine .bind (A := fun k variants => ∀ made ∈ variants, made.index < k) ?_ ?_
  · refine .mapM (fun _ _ _ hk hlt => hlt.trans_le hk) ?_
    rintro ⟨variant, payload⟩ hmem k hk
    have hsound : ∀ t ∈ payload, t.Sound {} k := fun t ht =>
      (hpayload payload (of_mem_zip hmem).2 t ht).mono hk
    have hlt : id.index < k := by omega
    refine (allocate_grows (variantSymbol_sound hlt hsound decl variant)).bind fun made j _ hmade => ?_
    exact (declareValue_answers hmade ..).seq_grows fun _ => .pure hmade
  · intro variants k hk hvariants
    have hlt : id.index < k := by omega
    exact (perform_grows (.setVariants id variants) ⟨trivial, hlt, hvariants⟩).done

lemma populateType_grows {declared : SymbolId} (h : declared.index < n) (p : Program)
    (id : StmtId) : Grows n (populateType p id declared) fun _ _ => True := by
  unfold populateType
  split
  · exact populateRecord_grows h p _
  · exact populateEnum_grows h _
  · refine Answers.grows (A := fun _ => True) ((symbol_answers h).seq fun _ => ?_) fun _ _ => trivial
    exact (expand_answers h (fun _ => trivial) (by simp) ..).seq fun _ => .pure trivial
  · exact .pure trivial

lemma registerTypeNames_grows (p : Program) (ids : List StmtId) :
    Grows n (registerTypeNames p ids) fun m made => ∀ entry ∈ made, entry.2.index < m := by
  induction ids generalizing n with
  | nil => exact .pure nofun
  | cons id rest ih =>
    refine (registerTypeName_grows p id).bind fun made m _ hmade => ?_
    refine ih.bind fun others k hk hothers => .pure ?_
    refine forall_mem_append.mpr ⟨forall_mem_map.mpr fun symbol hsymbol => ?_, hothers⟩
    exact (hmade symbol (Option.mem_toList.mp hsymbol)).trans_le hk

lemma registerIfFunction_grows (p : Program) (id : StmtId) :
    Grows n (registerIfFunction p id) fun _ _ => True := by
  unfold registerIfFunction
  split
  · exact (registerFunction_grows id _).bind fun _ _ _ _ => .pure trivial
  · exact .pure trivial

lemma registerDeclarations_grows (p : Program) (items : List StmtId) :
    Grows n (registerDeclarations p items) fun _ _ => True := by
  refine (registerTypeNames_grows p items).bind fun types m _ htypes => ?_
  refine .bind (.forM ?_) fun _ _ _ _ => .forM fun id _ _ _ => registerIfFunction_grows p id
  -- The symbols of types are made before any of them is filled in, and stay valid as others are made.
  rintro ⟨id, declared⟩ hmem k hk
  exact populateType_grows ((htypes _ hmem).trans_le hk) p id

lemma ensureRegistered_grows (p : Program) (id : StmtId) :
    Grows n (ensureRegistered p id) fun m found => ∀ made ∈ found, made.index < m := by
  refine (perform_answers (E := {}) (.declaredSymbol id) trivial rfl).bind_grows fun found hfound => ?_
  cases found with
  | some known => exact .pure hfound
  | none =>
    dsimp only
    split
    · refine (registerFunction_grows id _).bind fun made m _ hmade => .pure ?_
      rintro _ ⟨⟩
      exact hmade
    · refine (registerTypeName_grows p id).bind fun made m _ hmade => ?_
      cases made with
      | none => exact .pure nofun
      | some made =>
        refine (populateType_grows (hmade made rfl) p id).bind fun _ k hk _ => .pure ?_
        rintro _ ⟨⟩
        exact (hmade made rfl).trans_le hk

lemma selfType_sound (h : id.index < n) (owner : Symbol) : (selfType id owner).Sound {} n := by
  refine .named (by rintro _ ⟨⟩; exact h) fun types htypes => ?_
  split at htypes
  · cases htypes
  · cases htypes
    exact forall_mem_map.mpr fun name _ => .param name

end Rule

end StaticTyping
