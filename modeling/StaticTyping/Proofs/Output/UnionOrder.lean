import StaticTyping.Proofs.Mirror.Same

/-! The order of the members of written unions. Neighbours may change places unless both are integers or
both floats, of which the first one is what a literal becomes, or may turn out to be so once aliases are
expanded and type parameters replaced. The program is then checked with the same outcome. -/

namespace StaticTyping

open TypeExpr List Option StmtKind Array

/-- The type expressions are the same but for the order of members in unions, of which neighbours have
changed places that may. -/
inductive TypeExpr.Rearranges (kinds : NameKinds) : TypeExpr → TypeExpr → Prop
  | named {span : Span} {name : String} {xs ys : List TypeExpr}
      (h : List.Forall₂ (Rearranges kinds) xs ys) :
      Rearranges kinds (.named span name xs) (.named span name ys)
  | union {span : Span} {xs ys zs : List TypeExpr} (h : List.Forall₂ (Rearranges kinds) xs ys)
      (hr : Rearranged (Exchangeable kinds) ys zs) : Rearranges kinds (.union span xs) (.union span zs)
  | tuple {span : Span} {xs ys : List TypeExpr} (h : List.Forall₂ (Rearranges kinds) xs ys) :
      Rearranges kinds (.tuple span xs) (.tuple span ys)
  | fn {span : Span} {ps qs : List TypeExpr} {r t : TypeExpr}
      (hparams : List.Forall₂ (Rearranges kinds) ps qs) (hresult : Rearranges kinds r t) :
      Rearranges kinds (.fn span ps r) (.fn span qs t)
  | hole (span : Span) : Rearranges kinds (.hole span) (.hole span)

section Retyped

variable (R : TypeExpr → TypeExpr → Prop)

inductive ParamDecl.Retyped : ParamDecl → ParamDecl → Prop
  | intro (a : ParamDecl) {type : Option TypeExpr} (h : Option.Rel R a.type type) :
      Retyped a { a with type }

inductive FieldDecl.Retyped : FieldDecl → FieldDecl → Prop
  | intro (a : FieldDecl) {type : TypeExpr} (h : R a.type type) : Retyped a { a with type }

inductive VariantDecl.Retyped : VariantDecl → VariantDecl → Prop
  | intro (a : VariantDecl) {payload : List TypeExpr} (h : List.Forall₂ R a.payload payload) :
      Retyped a { a with payload }

inductive StmtKind.Retyped : StmtKind → StmtKind → Prop
  | bind (a : LetDecl) {type : Option TypeExpr} (h : Option.Rel R a.type type) :
      Retyped (.bind a) (.bind { a with type })
  | function (a : FunctionDecl) {params : List ParamDecl} {result : Option TypeExpr}
      (hparams : List.Forall₂ (ParamDecl.Retyped R) a.params params)
      (hresult : Option.Rel R a.result result) :
      Retyped (.function a) (.function { a with params, result })
  | record (kind : RecordKind) (a : RecordDecl) {fields : List FieldDecl}
      (h : List.Forall₂ (FieldDecl.Retyped R) a.fields fields) :
      Retyped (.record kind a) (.record kind { a with fields })
  | enum (a : EnumDecl) {variants : List VariantDecl}
      (h : List.Forall₂ (VariantDecl.Retyped R) a.variants variants) :
      Retyped (.enum a) (.enum { a with variants })
  | typeAlias (a : AliasDecl) {target : TypeExpr} (h : R a.target target) :
      Retyped (.typeAlias a) (.typeAlias { a with target })
  | plain {kind : StmtKind} (h : kind.isPlain = true) : Retyped kind kind

inductive ExprKind.Retyped : ExprKind → ExprKind → Prop
  | cast (value : ExprId) {t u : TypeExpr} (h : R t u) : Retyped (.cast value t) (.cast value u)
  | same {kind : ExprKind} (h : ∀ value target, kind ≠ .cast value target) : Retyped kind kind

structure Program.Retyped (p q : Program) : Prop where
  items : q.items = p.items
  exprs : List.Forall₂ (fun x y => x.span = y.span ∧ x.kind.Retyped R y.kind) p.expressions.toList
    q.expressions.toList
  stmts : List.Forall₂ (fun x y => x.span = y.span ∧ x.kind.Retyped R y.kind) p.statements.toList
    q.statements.toList

end Retyped

def StmtKind.aliasName? : StmtKind → Option String
  | .typeAlias decl => some decl.name.name
  | _ => none

namespace Program

def aliasNames (p : Program) : List String := p.statements.toList.filterMap (·.kind.aliasName?)

def typeParamNames (p : Program) : List String :=
  p.statements.toList.flatMap fun s => s.kind.typeParams.map (·.name)

/-- Only names that the program gives to aliases stand for aliases, and only those that it gives to type
parameters for type parameters. -/
def kinds (p : Program) : NameKinds := fun name kind =>
  (kind = .typeAlias → name ∈ p.aliasNames) ∧ (kind = .typeParam → name ∈ p.typeParamNames)

variable {p : Program} {id : StmtId}

lemma stmt_eq_dangling_or_mem (p : Program) (id : StmtId) :
    p.stmt id = .dangling ∨ p.stmt id ∈ p.statements.toList := by
  unfold stmt
  cases h : p.statements[id.index]? with
  | none => exact .inl rfl
  | some found => exact .inr (mem_toList_iff.mpr (mem_of_getElem? h))

lemma kinds_typeParam {param : Ident} (h : param ∈ (p.stmt id).kind.typeParams) :
    p.kinds param.name .typeParam := by
  refine ⟨by simp, fun _ => ?_⟩
  rcases p.stmt_eq_dangling_or_mem id with hid | hid
  · rw [hid] at h
    exact absurd h not_mem_nil
  · exact mem_flatMap.mpr ⟨_, hid, mem_map_of_mem h⟩

lemma kinds_typeSymbol? {symbol : Symbol} (h : (p.stmt id).kind.typeSymbol? = some symbol) :
    p.kinds symbol.name symbol.kind := by
  refine ⟨fun hkind => ?_, fun hkind => absurd hkind (Rule.typeSymbol?_kind h)⟩
  rcases p.stmt_eq_dangling_or_mem id with hid | hid
  · rw [hid] at h
    simp [Stmt.dangling, typeSymbol?] at h
  · refine mem_filterMap.mpr ⟨_, hid, ?_⟩
    generalize (p.stmt id).kind = kind at h
    cases kind with
    | typeAlias decl =>
      obtain rfl := some.inj h
      rfl
    | record kind decl =>
      obtain rfl := some.inj h
      cases kind <;> simp [RecordKind.symbolKind] at hkind
    | enum decl =>
      obtain rfl := some.inj h
      simp at hkind
    | _ => simp [typeSymbol?] at h

end Program

/-- Members of unions may change places, and so may diagnostics. -/
def rearrangingMirror (kinds : NameKinds) : Mirror where
  symbols := Eq
  params := Eq
  loose := True
  symbols_unique := biUnique_eq
  params_unique := biUnique_eq
  values _ := True
  declared _ := True
  known _ := False
  full _ := True
  fixed _ := True
  kinds := kinds
  exact := False
  waiting := True
  output ds es := (ds.map fun d => (d.code, d.span)).Perm (es.map fun d => (d.code, d.span))
  fixed_params _ := rfl
  exact_params h := h.elim
  exact_strict h := h.elim
  loose_fixed _ _ := trivial
  output_nil := .nil
  output_append h h' := by
    rw [List.map_append, List.map_append]
    exact h.append h'
  output_perm _ h hperm := by exact h.trans (hperm.map _)
  output_report span hcode _ _ := by simp [Finding.toDiagnostic, hcode]
  output_cycle _ _ _ := .refl _

section Mirrors

variable {kinds : NameKinds} {c : Names}

mutual

theorem TypeExpr.Rearranges.mirrors (hc : c.IsSame) : ∀ {t u : TypeExpr}, t.Rearranges kinds u →
    t.Mirrors (rearrangingMirror kinds) c u
  | .named span name xs, _, .named h => by
    have hargs := Rearranges.mirrorsAll hc h
    cases hname : isBuiltIn name with
    | true => exact .builtIn hname hargs
    | false => exact .declared hname hname (hc name) hargs
  | .union span xs, _, .union h hr => .union (mirrorsAll hc h) (.inr ⟨trivial, hr⟩)
  | .tuple span xs, _, .tuple h => .tuple (mirrorsAll hc h)
  | .fn span ps r, _, .fn hparams hresult => .fn (mirrorsAll hc hparams) (mirrors hc hresult)
  | .hole span, _, .hole _ => .hole span

theorem TypeExpr.Rearranges.mirrorsAll (hc : c.IsSame) : ∀ {ts us : List TypeExpr},
    Forall₂ (Rearranges kinds) ts us →
    Forall₂ (Mirrors (rearrangingMirror kinds) c) ts us
  | [], _, .nil => .nil
  | _ :: _, _, .cons h hrest => .cons (mirrors hc h) (mirrorsAll hc hrest)

end

variable (hc : c.IsSame)

include hc

lemma TypeExpr.Rearranges.mirrorsOptional {t u : Option TypeExpr}
    (h : Rel (Rearranges kinds) t u) :
    Rel (Mirrors (rearrangingMirror kinds) c) t u :=
  rel_imp h fun _ _ h => h.mirrors hc

lemma ExprKind.Retyped.mirrors {k l : ExprKind} (h : k.Retyped (Rearranges kinds) l) :
    k.Mirrors (rearrangingMirror kinds) c l := by
  cases h with
  | cast value h => exact .cast (h.mirrors hc)
  | same h =>
    cases k with
    | record name fields => exact .record (hc name.name)
    | _ => exact .same h (by simp)

lemma StmtKind.Retyped.mirrors {k l : StmtKind} (h : k.Retyped (Rearranges kinds) l)
    (hparams : ∀ param ∈ k.typeParams, kinds param.name .typeParam) :
    k.Mirrors (rearrangingMirror kinds) c l := by
  have hinside (ps : List Ident) : ((rearrangingMirror kinds).inside c ps ps).IsSame :=
    hc.inside (fun _ => rfl) ps
  have hparameters (hps : ∀ param ∈ k.typeParams, kinds param.name .typeParam) :
      (rearrangingMirror kinds).Parameters k.typeParams k.typeParams :=
    forall₂_same.mpr fun param h => ⟨rfl, rfl, hps param h⟩
  cases h with
  | bind a h => exact .bind ⟨rfl, rfl, Rearranges.mirrorsOptional hc h, rfl⟩
  | function a hps hresult =>
    refine .function ⟨rfl, hparameters hparams, hps.imp ?_,
      Rearranges.mirrorsOptional (hinside _) hresult, rfl⟩
    rintro _ _ ⟨h⟩
    exact ⟨rfl, rfl, rfl, rfl, Rearranges.mirrorsOptional (hinside _) h, rfl⟩
  | record kind a hfields =>
    refine .record ⟨rfl, hparameters hparams, hfields.imp ?_, rfl⟩
    rintro _ _ ⟨h⟩
    exact ⟨rfl, rfl, h.mirrors (hinside _)⟩
  | enum a hvariants =>
    refine .enum ⟨rfl, hparameters hparams, hvariants.imp ?_⟩
    rintro _ _ ⟨h⟩
    exact ⟨rfl, rfl, Rearranges.mirrorsAll (hinside _) h⟩
  | typeAlias a h => exact .typeAlias ⟨rfl, h.mirrors hc⟩
  | plain h => exact .plain h

end Mirrors

section Retyped

variable {R : TypeExpr → TypeExpr → Prop} {p q : Program}

lemma StmtKind.Retyped.typeParams {k l : StmtKind} (h : k.Retyped R l) :
    l.typeParams = k.typeParams := by
  cases h <;> rfl

lemma ExprKind.Retyped.alike {k l : ExprKind} (h : k.Retyped R l) : k.Alike l := by
  cases h with
  | cast value h => exact .cast _ _ _
  | same h => exact .same _

lemma rel_getElem? {α : Type} {Q : α → α → Prop} {xs ys : List α} (h : Forall₂ Q xs ys)
    (i : Nat) : Rel Q xs[i]? ys[i]? := by
  induction h generalizing i with
  | nil => exact .none
  | cons hab _ ih =>
    cases i with
    | zero => exact .some hab
    | succ i => exact ih i

namespace Program.Retyped

variable (h : p.Retyped R q)

include h

lemma expr (id : ExprId) :
    (p.expr id).span = (q.expr id).span ∧ (p.expr id).kind.Retyped R (q.expr id).kind := by
  have hfound := rel_getElem? h.exprs id.index
  simp only [getElem?_toList] at hfound
  exact rel_getD (a := .dangling) hfound ⟨rfl, .same (by simp [Expr.dangling])⟩

lemma stmt (id : StmtId) :
    (p.stmt id).span = (q.stmt id).span ∧ (p.stmt id).kind.Retyped R (q.stmt id).kind := by
  have hfound := rel_getElem? h.stmts id.index
  simp only [getElem?_toList] at hfound
  exact rel_getD (a := .dangling) hfound ⟨rfl, .plain rfl⟩

lemma alike : p.Alike q where
  depth := by
    have hlength := h.exprs.length_eq
    simp only [Array.length_toList] at hlength
    rw [Program.exprDepth, Program.exprDepth, hlength]
  kind id := (h.expr id).2.alike

lemma stmtDepth : p.stmtDepth = q.stmtDepth := by
  have hlength := h.stmts.length_eq
  simp only [Array.length_toList] at hlength
  rw [Program.stmtDepth, Program.stmtDepth, hlength]

end Program.Retyped

end Retyped

def StmtTwins.rearranging {p q : Program} (h : p.Retyped (Rearranges p.kinds) q)
    (options : Options) : StmtTwins (rearrangingMirror p.kinds) ⟨p, options⟩ ⟨q, options⟩ where
  exprs c _ := c.IsSame
  full _ := trivial
  options := .refl options
  alike := h.alike
  span id := (h.expr id).1
  kind hc := (h.expr _).2.mirrors hc
  child hc _ := hc
  callee hc _ _ := hc _
  named _ _ := trivial
  stmts c _ := c.IsSame
  declared _ := trivial
  stmtDepth := h.stmtDepth
  stmtSpan id := (h.stmt id).1
  stmtKind hc := (h.stmt _).2.mirrors hc fun _ => Program.kinds_typeParam
  typeName hc hsymbol := ⟨hc _, Program.kinds_typeSymbol? hsymbol⟩
  typeAlias _ _ := .inl trivial
  held {_ id _} hc _ := by
    rw [(h.stmt id).2.typeParams]
    exact hc.inside (fun _ => rfl) _
  inner {_ id _} hc _ := by
    rw [(h.stmt id).2.typeParams]
    exact hc.inside (fun _ => rfl) _
  ownName _ _ := trivial
  condition span hab := .of_eq (conditionReports_places hab _ span)

/-- Whether members of unions stand in one order or in another makes no difference to what is found and
where, as long as only neighbours change places that may. -/
theorem check_rearranged {p q : Program} (h : p.Retyped (TypeExpr.Rearranges p.kinds) q)
    (options : Options) (imports : List Ident) :
    (check q options imports).places.Perm (check p options imports).places := by
  have heeds {c : Names} (hc : (rearrangingMirror p.kinds).Context c) :
      (rearrangingMirror p.kinds).Heeds (TypeExpr.Rearranges p.kinds) c := fun _ _ h =>
    ⟨trivial, h.mirrors fun _ => hc.fixed trivial⟩
  have hcontext : (rearrangingMirror p.kinds).Context Eq :=
    ⟨biUnique_eq, fun _ => rfl, fun _ h => h⟩
  have htargets (id : StmtId) : Mirror.Targets (TypeExpr.Rearranges p.kinds) p q id := by
    intro a b ha hb
    have hkind := (h.stmt id).2
    rw [ha, hb] at hkind
    cases hkind with
    | typeAlias _ htarget => exact htarget
    | plain hplain => simp [isPlain] at hplain
  have himports : ∀ binding ∈ imports, (rearrangingMirror p.kinds).values binding.name :=
    fun _ _ => trivial
  have hboth := Mirror.check_mirrors (StmtTwins.rearranging h options) heeds hcontext (fun _ => rfl)
    (fun _ hknown => hknown) h.items.symm (fun _ _ _ => rfl) (fun id _ => htargets id) himports
  exact hboth.1.symm

section Sample

/-- An alias for a union, and an integer where another union is expected. -/
def unionProgram (wide expected : List TypeExpr) : Program where
  expressions := #[⟨{}, .literal (.int "300")⟩]
  statements := #[
    ⟨{}, .typeAlias { name := ⟨"Wide", {}⟩, target := .union {} wide }⟩,
    ⟨{}, .bind { name := ⟨"x", {}⟩, type := some (.union {} expected), value := some ⟨0⟩ }⟩]
  items := [⟨0⟩, ⟨1⟩]

/-- A name that stands alone, on a line of its own. -/
def TypeExpr.onLine (line : Nat) (name : String) : TypeExpr := .named { line } name []

variable {kinds : NameKinds}

lemma unionProgram_retyped {wide wide' expected expected' : List TypeExpr}
    (hwide : (union {} wide).Rearranges kinds (.union {} wide'))
    (hexpected : (union {} expected).Rearranges kinds (.union {} expected')) :
    (unionProgram wide expected).Retyped (Rearranges kinds) (unionProgram wide' expected') where
  items := rfl
  exprs := .cons ⟨rfl, .same (by simp)⟩ .nil
  stmts := .cons ⟨rfl, .typeAlias _ hwide⟩ (.cons ⟨rfl, .bind _ (.some hexpected)⟩ .nil)

lemma TypeExpr.rearranges_onLines (names : List (Nat × String)) {zs : List TypeExpr}
    (h : Rearranged (Exchangeable kinds) (names.map fun x => onLine x.1 x.2) zs) :
    (union {} (names.map fun x => onLine x.1 x.2)).Rearranges kinds (.union {} zs) := by
  refine .union (forall₂_same.mpr fun t ht => ?_) h
  obtain ⟨x, -, rfl⟩ := mem_map.mp ht
  exact .named .nil

def unionSample : Program :=
  unionProgram [.onLine 1 "Missing", .onLine 2 "i64"]
    [.onLine 3 "i8", .onLine 4 "Absent", .onLine 5 "string", .onLine 6 "Wide"]

def unionSwapped : Program :=
  unionProgram [.onLine 2 "i64", .onLine 1 "Missing"]
    [.onLine 4 "Absent", .onLine 3 "i8", .onLine 6 "Wide", .onLine 5 "string"]

/-- Names of no type change places with integers, and the alias with a primitive that is no number. -/
lemma unionSample_retyped :
    unionSample.Retyped (Rearranges unionSample.kinds) unionSwapped := by
  have hmissing : Exchangeable unionSample.kinds (.onLine 1 "Missing") (.onLine 2 "i64") := by
    have hname : (onLine 1 "Missing").outline? = some (.named "Missing") := by decide
    exact
      { aliases := .inr fun name h => .inl (by decide +revert)
        told := .inr (.inr
          { left := .inr ⟨fun h => absurd (h.1 rfl) (by decide), fun h => absurd (h.2 rfl) (by decide)⟩
            right := .inl (by decide)
            integers := fun h => by simp [hname] at h
            floats := fun h => by simp [hname] at h
            differ := .inl (by decide) }) }
  have habsent : Exchangeable unionSample.kinds (.onLine 3 "i8") (.onLine 4 "Absent") := by
    have hname : (onLine 4 "Absent").outline? = some (.named "Absent") := by decide
    exact
      { aliases := .inl fun name h => .inl (by decide +revert)
        told := .inr (.inr
          { left := .inl (by decide)
            right := .inr ⟨fun h => absurd (h.1 rfl) (by decide), fun h => absurd (h.2 rfl) (by decide)⟩
            integers := fun _ h => by simp [hname] at h
            floats := fun _ h => by simp [hname] at h
            differ := .inl (by decide) }) }
  have hstring : Exchangeable unionSample.kinds (.onLine 5 "string") (.onLine 6 "Wide") :=
    ⟨.inl fun name h => .inl (by decide +revert), .inl (by decide)⟩
  exact unionProgram_retyped
    (rearranges_onLines [(1, "Missing"), (2, "i64")] (.swap hmissing []))
    (rearranges_onLines [(3, "i8"), (4, "Absent"), (5, "string"), (6, "Wide")]
      (.trans (.swap habsent _) (.cons _ (.cons _ (.swap hstring [])))))

theorem check_rearranged_sample :
    unionSample.Retyped (TypeExpr.Rearranges unionSample.kinds) unionSwapped ∧
    (check unionSample {} []).places = [(.unknownType, some { line := 1 }),
      (.unknownType, some { line := 4 }), (.integerOutOfRange, some {})] ∧
    (check unionSwapped {} []).places.Perm (check unionSample {} []).places :=
  ⟨unionSample_retyped, by decide +kernel, check_rearranged unionSample_retyped {} []⟩

/-- Aliases that lead to each other in a circle, and one for both. -/
def cycleProgram (both : List TypeExpr) : Program where
  statements := #[
    ⟨{}, .typeAlias { name := ⟨"Both", {}⟩, target := .union {} both }⟩,
    ⟨{}, .typeAlias { name := ⟨"First", {}⟩, target := .onLine 3 "Second" }⟩,
    ⟨{}, .typeAlias { name := ⟨"Second", {}⟩, target := .onLine 4 "First" }⟩]
  items := [⟨0⟩, ⟨1⟩, ⟨2⟩]

/-- An integer takes the first integer type that is expected; names are reported in the order they are
written in; and a circle of aliases is reported where it is closed, which depends on where it is
entered. -/
theorem check_rearranged_depends :
    (check (unionProgram [] [.onLine 1 "i8", .onLine 2 "i64"]) {} []).places =
      [(.integerOutOfRange, some {})] ∧
    (check (unionProgram [] [.onLine 2 "i64", .onLine 1 "i8"]) {} []).places = [] ∧
    (check (unionProgram [] [.onLine 1 "Missing", .onLine 2 "Absent"]) {} []).places ≠
      (check (unionProgram [] [.onLine 2 "Absent", .onLine 1 "Missing"]) {} []).places ∧
    (check (cycleProgram [.onLine 1 "First", .onLine 2 "Second"]) {} []).places =
      [(.aliasCycle, some { line := 4 })] ∧
    (check (cycleProgram [.onLine 2 "Second", .onLine 1 "First"]) {} []).places =
      [(.aliasCycle, some { line := 3 })] := by
  decide +kernel

end Sample

end StaticTyping
