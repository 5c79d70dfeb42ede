import StaticTyping.Proofs.Mirror.Run
import StaticTyping.Proofs.TypeParams.Renaming

/-! The names of type parameters do not matter, as long as each is kept apart from everything else
that has its name. -/

namespace StaticTyping

open Program List Mirror

namespace Program

/-- A type parameter that nothing else in the program can be taken for. -/
structure KeepsApart (p : Program) (d : StmtId) (a : String) : Prop where
  param : a ∈ (p.stmt d).kind.typeParams.map (·.name)
  /-- No other declaration has a type parameter of that name. -/
  alone (id : StmtId) : id ≠ d → a ∉ (p.stmt id).kind.typeParams.map (·.name)
  /-- No type of that name is declared inside the declaration. -/
  undeclared (id : StmtId) : id ∈ p.stmtsBelow d → id ≠ d → p.typeName? id ≠ some a
  /-- No alias at top level refers to a type of that name. -/
  unaliased (id : StmtId) (decl : AliasDecl) : id ∈ p.items → (p.stmt id).kind = .typeAlias decl →
    isBuiltIn a = true ∨ a ∉ decl.target.names
  /-- Nothing is called by that name inside the declaration. -/
  uncalled (id callee : ExprId) (args : List Argument) : id ∈ p.exprsBelow d →
    (p.expr id).kind = .call callee args → a ∉ (p.expr callee).kind.typeNames

/-- A type name that the program does not use. -/
structure FreshType (p : Program) (b : String) : Prop where
  notBuiltIn : isBuiltIn b = false
  stmts (id : StmtId) : b ∉ (p.stmt id).kind.typeNames
  exprs (id : ExprId) : b ∉ (p.expr id).kind.typeNames

end Program

/-- How type names are written anew, depending on where they stand. -/
def renamingIf (inside : Prop) [Decidable inside] (a b : String) : String → String :=
  if inside then renameTo a b else id

section Renaming

variable {a b name : String} {inside : Prop} [Decidable inside]

lemma renamingIf_pos (h : inside) : renamingIf inside a b = renameTo a b := if_pos h

lemma renamingIf_neg (h : ¬inside) : renamingIf inside a b = id := if_neg h

lemma renamingIf_congr {other : Prop} [Decidable other] (h : inside ↔ other) :
    renamingIf inside a b = renamingIf other a b :=
  if_congr h rfl rfl

lemma renameTo_of_ne (h : name ≠ a) : renameTo a b name = name := if_neg h

lemma renamingIf_of_ne (h : inside → name ≠ a) : renamingIf inside a b name = name := by
  unfold renamingIf
  split
  · rename_i hinside
    exact renameTo_of_ne (h hinside)
  · rfl

lemma renameTo_injective {x y : String} (hx : x ≠ b) (hy : y ≠ b)
    (h : renameTo a b x = renameTo a b y) : x = y := by
  unfold renameTo at h
  split at h <;> split at h
  · rename_i hxa hya
    exact hxa.trans hya.symm
  · exact absurd h.symm hy
  · exact absurd h hx
  · exact h

lemma renamingIf_injective {x y : String} (hx : x ≠ b) (hy : y ≠ b)
    (h : renamingIf inside a b x = renamingIf inside a b y) : x = y := by
  unfold renamingIf at h
  split at h
  · exact renameTo_injective hx hy h
  · exact h

lemma isBuiltIn_renamingIf (hb : isBuiltIn b = false) (name : String)
    (h : isBuiltIn name = false) : isBuiltIn (renamingIf inside a b name) = false := by
  unfold renamingIf
  split
  · unfold renameTo
    split
    · exact hb
    · exact h
  · exact h

end Renaming

/-- One type parameter goes by another name, which is new. All else is named as it is. -/
def renamingMirror (a b : String) : Mirror where
  symbols := Eq
  params x y := x ≠ b ∧ y = renameTo a b x
  loose := False
  symbols_unique := biUnique_eq
  params_unique := by
    constructor
    · rintro x y z ⟨hx, rfl⟩ ⟨hy, h⟩
      exact renameTo_injective hx hy h
    · rintro x y z ⟨-, rfl⟩ ⟨-, rfl⟩
      rfl
  values _ := True
  declared _ := True
  known _ := False
  full _ := True
  fixed name := name ≠ a ∧ name ≠ b
  kinds _ _ := True
  exact := False
  waiting := True
  output ds es := ds.map (fun d => (d.code, d.span)) = es.map fun d => (d.code, d.span)
  fixed_params h := ⟨h.2, (renameTo_of_ne h.1).symm⟩
  exact_params h := h.elim
  exact_strict h := h.elim
  loose_fixed _ h := h.elim
  output_nil := rfl
  output_append h h' := by rw [List.map_append, List.map_append, h, h']
  output_perm h := h.elim
  output_report span hcode _ _ := by simp [Finding.toDiagnostic, hcode]
  output_cycle _ _ _ := rfl

/-- Names other than the new one stand for what they are renamed to. -/
def Names.Follows (c : Names) (b : String) (f : String → String) : Prop :=
  ∀ name, name ≠ b → c name (f name)

/-- Inside a declaration names stand for what they are renamed to if its type parameters do, and if
the names from outside do. -/
lemma Names.Follows.enter {m : Mirror} {c : Names} {b : String} {f : String → String}
    {ps : List String} (hps : ∀ x ∈ ps, x ≠ b ∧ m.params x (f x))
    (hf : ∀ {x y}, x ≠ b → y ≠ b → f x = f y → x = y)
    (hc : ∀ name, name ≠ b → name ∉ ps → c name (f name)) :
    Follows (m.enter c ps (ps.map f)) b f := by
  intro name hname
  by_cases hmem : name ∈ ps
  · exact .inl ⟨(hps name hmem).2, hmem, mem_map_of_mem hmem⟩
  · refine .inr ⟨hc name hname hmem, hmem, fun hnew => ?_⟩
    obtain ⟨x, hx, hxname⟩ := mem_map.mp hnew
    exact hmem (hf (hps x hx).1 hname hxname ▸ hx)

lemma StmtKind.typeParams_rename (f : String → String) (kind : StmtKind) :
    (kind.rename f).typeParams = kind.typeParams.map (Ident.rename f) := by
  cases kind <;> rfl

lemma StmtKind.mem_typeNames_of_typeParams {kind : StmtKind} {name : String}
    (h : name ∈ kind.typeParams.map (·.name)) : name ∈ kind.typeNames := by
  cases kind with
  | function decl => exact mem_append_left _ (mem_append_left _ h)
  | record | enum => exact mem_append_left _ (.tail _ h)
  | _ => exact absurd h not_mem_nil

lemma StmtKind.mem_typeNames_of_typeSymbol? {kind : StmtKind} {symbol : Symbol}
    (h : kind.typeSymbol? = some symbol) : symbol.name ∈ kind.typeNames := by
  cases kind with
  | record | enum | typeAlias =>
    obtain rfl := Option.some.inj h
    exact .head _
  | _ => simp [StmtKind.typeSymbol?] at h

lemma ExprKind.alike_rename (f : String → String) (kind : ExprKind) : kind.Alike (kind.rename f) := by
  cases kind with
  | cast value target => exact .cast _ _ _
  | record typeName fields => exact .record _ _ _
  | _ => exact .same _

namespace Program

variable {p : Program} {d : StmtId} {a b : String}

lemma renameParam_exprKind (id : ExprId) : ((p.renameParam d a b).expr id).kind =
    (p.expr id).kind.rename (renamingIf (id ∈ p.exprsBelow d) a b) := by
  rw [renameParam_expr]
  split
  · rename_i h
    rw [renamingIf_pos h]
  · rename_i h
    rw [renamingIf_neg h, ExprKind.rename_id]

lemma renameParam_stmtKind (id : StmtId) : ((p.renameParam d a b).stmt id).kind =
    (p.stmt id).kind.rename (renamingIf (id ∈ p.stmtsBelow d) a b) := by
  rw [renameParam_stmt]
  split
  · rename_i h
    rw [renamingIf_pos h]
  · rename_i h
    rw [renamingIf_neg h, StmtKind.rename_id]

variable (ha : p.KeepsApart d a) (hb : p.FreshType b)

include ha hb

lemma KeepsApart.params (id : StmtId) {x : String} (hx : x ∈ (p.stmt id).kind.typeParams.map (·.name)) :
    x ≠ b ∧ (renamingMirror a b).params x (renamingIf (id ∈ p.stmtsBelow d) a b x) := by
  have hne : x ≠ b := by
    rintro rfl
    exact hb.stmts id (StmtKind.mem_typeNames_of_typeParams hx)
  refine ⟨hne, hne, ?_⟩
  by_cases hid : id ∈ p.stmtsBelow d
  · rw [renamingIf_pos hid]
  · have hxa : x ≠ a := by
      rintro rfl
      refine ha.alone id (fun hd => hid ?_) hx
      rw [hd]
      exact Multiset.mem_add.mpr (.inl (Multiset.mem_singleton_self d))
    rw [renamingIf_neg hid, renameTo_of_ne hxa]
    rfl

/-- Inside a statement names stand for what they are renamed to there. The declaration itself stands
where nothing is renamed, but has the type parameter. -/
lemma KeepsApart.follows {c : Names} {id : StmtId}
    (hc : c.Follows b (renamingIf (id ∈ p.stmtsBelow d ∧ id ≠ d) a b)) :
    Names.Follows ((renamingMirror a b).inside c (p.stmt id).kind.typeParams
      ((p.renameParam d a b).stmt id).kind.typeParams) b (renamingIf (id ∈ p.stmtsBelow d) a b) := by
  have hmap : ((p.renameParam d a b).stmt id).kind.typeParams.map (·.name) =
      ((p.stmt id).kind.typeParams.map (·.name)).map (renamingIf (id ∈ p.stmtsBelow d) a b) := by
    rw [renameParam_stmtKind, StmtKind.typeParams_rename, map_map, map_map]
    rfl
  rw [inside, hmap]
  refine .enter (fun x hx => ha.params hb id hx) (fun hx hy => renamingIf_injective hx hy) ?_
  intro name hname hmem
  have hstands := hc name hname
  by_cases hid : id = d
  · subst hid
    have hne : name ≠ a := by
      rintro rfl
      exact hmem ha.param
    rw [renamingIf_of_ne fun _ => hne] at hstands ⊢
    exact hstands
  · simpa only [ne_eq, hid, not_false_eq_true, and_true] using hstands

end Program

def StmtTwins.renaming {p : Program} (hp : p.SingleUse) {d : StmtId} {a b : String}
    (ha : p.KeepsApart d a) (hb : p.FreshType b) (options : Options) :
    StmtTwins (renamingMirror a b) ⟨p, options⟩ ⟨p.renameParam d a b, options⟩ where
  exprs c e := (∃ id, p.LeadsTo id ∧ p.Holds id e) ∧ c.Follows b (renamingIf (e ∈ p.exprsBelow d) a b)
  full _ := trivial
  options := .refl options
  alike := by
    refine ⟨?_, fun e => ?_⟩
    · simp [exprDepth, Program.renameParam]
    · rw [renameParam_exprKind]
      exact ExprKind.alike_rename _ _
  span e := by
    unfold Env.exprSpan
    rw [renameParam_expr]
    split <;> rfl
  kind {c e} h := by
    unfold Env.exprKind
    rw [renameParam_exprKind]
    refine ExprKind.mirrors_rename (isBuiltIn_renamingIf hb.notBuiltIn) _ fun name hname => h.2 name ?_
    rintro rfl
    exact hb.exprs e hname
  child {c e part} h hpart := by
    obtain ⟨⟨id, hid, held, hheld, hpath⟩, hc⟩ := h
    have he : p.Holds id e := ⟨held, hheld, hpath⟩
    have hholds : p.Holds id part := ⟨held, hheld, hpath.tail hpart⟩
    refine ⟨⟨id, hid, hholds⟩, ?_⟩
    rwa [renamingIf_congr ((hp.mem_exprsBelow_iff hid hholds).trans (hp.mem_exprsBelow_iff hid he).symm)]
  callee {c e callee args name} h hkind hname := by
    have hmem : name ∈ (p.expr callee).kind.typeNames := by
      rw [show (p.expr callee).kind = .name name from hname]
      exact .head _
    have hstands := h.2 name (by rintro rfl; exact hb.exprs callee hmem)
    rwa [renamingIf_of_ne] at hstands
    rintro hbelow rfl
    exact ha.uncalled e callee args hbelow hkind hmem
  named _ _ := trivial
  stmts c id := p.LeadsTo id ∧ c.Follows b (renamingIf (id ∈ p.stmtsBelow d ∧ id ≠ d) a b)
  declared _ := trivial
  stmtDepth := by simp [Program.stmtDepth, Program.renameParam]
  stmtSpan id := by
    rw [renameParam_stmt]
    split <;> rfl
  stmtKind {c id} h := by
    have hinside := ha.follows hb h.2
    rw [renameParam_stmtKind] at hinside ⊢
    refine StmtKind.mirrors_rename (isBuiltIn_renamingIf hb.notBuiltIn) _ (fun x hx => ?_)
      (fun _ => trivial) fun name hname => ?_
    · exact (ha.params hb id (List.mem_map_of_mem hx)).2
    · refine hinside name ?_
      rintro rfl
      exact hb.stmts id hname
  typeName {c id symbol} h hsymbol := by
    have hmem := StmtKind.mem_typeNames_of_typeSymbol? hsymbol
    have hstands := h.2 symbol.name (by rintro hname; exact hb.stmts id (hname ▸ hmem))
    rw [renamingIf_of_ne] at hstands
    · exact ⟨hstands, trivial⟩
    rintro ⟨hbelow, hne⟩ hname
    refine ha.undeclared id hbelow hne ?_
    rw [typeName?, hsymbol]
    exact congrArg some hname
  typeAlias _ _ := .inl trivial
  held {c id part} h hpart := by
    have hholds : p.Holds id part := ⟨part, hpart, .refl⟩
    refine ⟨⟨id, h.1, hholds⟩, ?_⟩
    rw [renamingIf_congr (hp.mem_exprsBelow_iff h.1 hholds)]
    exact ha.follows hb h.2
  inner {c id part} h hpart := by
    have hbelow : part ∈ p.stmtsBelow d ∧ part ≠ d ↔ id ∈ p.stmtsBelow d := by
      by_cases hd : part = d
      · subst hd
        simp [hp.not_mem_stmtsBelow_child h.1 hpart]
      · rw [hp.mem_stmtsBelow_iff h.1 hpart hd, and_iff_left hd]
    refine ⟨h.1.child hpart, ?_⟩
    rw [renamingIf_congr hbelow]
    exact ha.follows hb h.2
  ownName _ _ := trivial
  condition span h := conditionReports_places h _ span

lemma Program.KeepsApart.steady {p : Program} (hp : p.SingleUse) {d : StmtId} {a b : String}
    (ha : p.KeepsApart d a) (hb : p.FreshType b) {item : StmtId} (hitem : item ∈ p.items) :
    Mirror.Targets (renamingMirror a b).Steady p (p.renameParam d a b) item := by
  intro x y hx hy
  -- A type alias has no type parameters, so it is not the declaration.
  have hne : item ≠ d := by
    rintro rfl
    have hparam := ha.param
    rw [hx] at hparam
    exact absurd hparam not_mem_nil
  have houtside : item ∉ p.stmtsBelow d := fun h => hne (hp.eq_of_item_below hitem h)
  rw [renameParam_stmtKind, renamingIf_neg houtside, StmtKind.rename_id, hx] at hy
  obtain rfl := StmtKind.typeAlias.inj hy
  refine ⟨trivial, rfl, fun name hname => ?_⟩
  have hmem : name ∈ (p.stmt item).kind.typeNames := by
    rw [hx]
    exact .tail _ hname
  by_cases hnamea : name = a
  · subst hnamea
    exact .inl ((ha.unaliased item x hitem hx).resolve_right fun h => h hname)
  · exact .inr ⟨hnamea, fun hnameb => hb.stmts item (hnameb ▸ hmem)⟩

/-- Renaming a type parameter that is kept apart to a new name changes nothing in what is found. -/
theorem check_renameParam (p : Program) (hp : p.SingleUse) (d : StmtId) (a b : String)
    (ha : p.KeepsApart d a) (hb : p.FreshType b) (options : Options) (imports : List Ident) :
    (check (p.renameParam d a b) options imports).places = (check p options imports).places := by
  have hcontext : (renamingMirror a b).Context fun x y => x ≠ b ∧ x = y := by
    refine ⟨⟨?_, ?_⟩, fun h => ⟨h.2, rfl⟩, fun h => h.elim⟩
    · rintro x y z ⟨-, rfl⟩ ⟨-, rfl⟩
      rfl
    · rintro x y z ⟨-, rfl⟩ ⟨-, rfl⟩
      rfl
  refine (check_mirrors (StmtTwins.renaming hp ha hb options) steady_heeds hcontext
    (fun _ => rfl) (fun _ h => h) rfl (fun item hitem => ⟨⟨item, hitem, .refl⟩, ?_⟩)
    (fun item hitem => ha.steady hp hb hitem) fun _ _ => trivial).1.symm
  intro name hname
  rw [renamingIf_neg fun h => h.2 (hp.eq_of_item_below hitem h.1)]
  exact ⟨hname, rfl⟩

/-- A function with a type parameter and an alias of it, beside a struct of the same name. -/
def hygieneSample : Program where
  expressions := #[⟨{}, .name "x"⟩, ⟨{}, .literal (.int "1")⟩]
  statements := #[
    ⟨{}, .typeAlias { name := ⟨"R", {}⟩, target := .named {} "T" [] }⟩,
    ⟨{}, .bind { name := ⟨"y", {}⟩, type := some (.named {} "R" []), value := some ⟨0⟩ }⟩,
    ⟨{}, .bind { name := ⟨"z", {}⟩, type := some (.named {} "bool" []), value := some ⟨1⟩ }⟩,
    ⟨{}, .function { name := ⟨"first", {}⟩, typeParams := [⟨"T", {}⟩],
                     params := [{ name := "x", type := some (.named {} "T" []) }],
                     body := { statements := [⟨0⟩, ⟨1⟩, ⟨2⟩] } }⟩,
    ⟨{}, .record .structType { name := ⟨"T", {}⟩ }⟩]
  items := [⟨4⟩, ⟨3⟩]

namespace hygieneSample

lemma keepsApart : hygieneSample.KeepsApart ⟨3⟩ "T" where
  param := by decide
  alone := by
    rintro ⟨i⟩ hi
    match i with
    | 0 | 1 | 2 | 4 => decide
    | 3 => exact absurd rfl hi
    | i + 5 => exact not_mem_nil
  undeclared := by decide
  unaliased id decl hid hkind := by
    revert hkind
    rcases mem_pair.mp hid with rfl | rfl <;> simp [hygieneSample, stmt]
  uncalled id callee args hid hkind := by
    revert hkind
    have hid : id = ⟨0⟩ ∨ id = ⟨1⟩ := by
      revert id
      decide
    rcases hid with rfl | rfl <;> simp [hygieneSample, expr]

end hygieneSample

lemma Program.FreshType.of_nodes {p : Program} {b : String} (hb : isBuiltIn b = false)
    (hstmts : ∀ s ∈ p.statements.toList, b ∉ s.kind.typeNames)
    (hexprs : ∀ e ∈ p.expressions.toList, b ∉ e.kind.typeNames) : p.FreshType b where
  notBuiltIn := hb
  stmts id hmem := by
    obtain ⟨hlt, hmem⟩ := lt_size_of_mem_kids (fun s : Stmt => s.kind.typeNames) rfl hmem
    exact hstmts _ (Array.getElem_mem_toList hlt) hmem
  exprs id hmem := by
    obtain ⟨hlt, hmem⟩ := lt_size_of_mem_kids (fun e : Expr => e.kind.typeNames) rfl hmem
    exact hexprs _ (Array.getElem_mem_toList hlt) hmem

theorem check_renameParam_sample :
    hygieneSample.SingleUse ∧ hygieneSample.KeepsApart ⟨3⟩ "T" ∧ hygieneSample.FreshType "U" ∧
    (check hygieneSample {} []).places = [(.typeMismatch, some {})] ∧
    (check (hygieneSample.renameParam ⟨3⟩ "T" "U") {} []).places = (check hygieneSample {} []).places := by
  have hsingle : hygieneSample.SingleUse := ⟨by decide, by decide⟩
  have hfresh : hygieneSample.FreshType "U" := .of_nodes (by decide) (by decide) (by decide)
  exact ⟨hsingle, hygieneSample.keepsApart, hfresh, by decide +kernel,
    check_renameParam _ hsingle _ _ _ hygieneSample.keepsApart hfresh {} []⟩

/-- A struct with a type parameter and a field of an alias for another struct, which has the name of
the parameter. -/
def capturedParamSample : Program where
  expressions := #[⟨{}, .literal (.int "1")⟩]
  statements := #[
    ⟨{}, .record .structType { name := ⟨"S", {}⟩, typeParams := [⟨"T", {}⟩],
                               fields := [{ name := "f", type := .named {} "A" [] }] }⟩,
    ⟨{}, .typeAlias { name := ⟨"A", {}⟩, target := .named {} "T" [] }⟩,
    ⟨{}, .record .structType { name := ⟨"T", {}⟩ }⟩,
    ⟨{}, .bind { name := ⟨"x", {}⟩, type := some (.named {} "A" []), value := some ⟨0⟩ }⟩]
  items := [⟨0⟩, ⟨1⟩, ⟨2⟩, ⟨3⟩]

/-- Two declarations with a type parameter of one name. In the second, a value of the first one's
parameter meets a value of its own. -/
def sharedParamSample : Program where
  expressions := #[
    ⟨{}, .name "s"⟩, ⟨{}, .member ⟨0⟩ ⟨"f", {}⟩⟩, ⟨{}, .name "y"⟩, ⟨{}, .array [⟨1⟩, ⟨2⟩]⟩,
    ⟨{}, .literal (.int "0")⟩, ⟨{}, .index ⟨3⟩ ⟨4⟩⟩, ⟨{}, .unary .minus ⟨5⟩⟩]
  statements := #[
    ⟨{}, .record .structType { name := ⟨"S", {}⟩, typeParams := [⟨"T", {}⟩],
                               fields := [{ name := "f", type := .named {} "T" [] }] }⟩,
    ⟨{}, .expr ⟨6⟩⟩,
    ⟨{}, .function { name := ⟨"g", {}⟩, typeParams := [⟨"T", {}⟩],
                     params := [{ name := "s", type := some (.named {} "S" []) },
                       { name := "y", type := some (.named {} "T" []) }],
                     body := { statements := [⟨1⟩] } }⟩]
  items := [⟨0⟩, ⟨2⟩]

/-- The alias is met first inside the struct, where the name of its target is that of the type
parameter, and keeps that type. Type parameters of one name are one type. -/
theorem check_renameParam_captured :
    (capturedParamSample.SingleUse ∧ "T" ∈ (capturedParamSample.stmt ⟨0⟩).kind.typeParams.map (·.name) ∧
      capturedParamSample.FreshType "U" ∧
      (check (capturedParamSample.renameParam ⟨0⟩ "T" "U") {} []).places ≠
        (check capturedParamSample {} []).places) ∧
    sharedParamSample.SingleUse ∧ "T" ∈ (sharedParamSample.stmt ⟨0⟩).kind.typeParams.map (·.name) ∧
      sharedParamSample.FreshType "U" ∧
      (check (sharedParamSample.renameParam ⟨0⟩ "T" "U") {} []).places ≠
        (check sharedParamSample {} []).places :=
  ⟨⟨⟨by decide, by decide⟩, by decide, .of_nodes (by decide) (by decide) (by decide), by decide +kernel⟩,
    ⟨by decide, by decide⟩, by decide, .of_nodes (by decide) (by decide) (by decide), by decide +kernel⟩

end StaticTyping
