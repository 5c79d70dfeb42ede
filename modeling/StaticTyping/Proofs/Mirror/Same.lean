import StaticTyping.Proofs.Mirror.Run

/-! A program beside itself. Wherever all type names stand for themselves, everything in it may be
checked side by side, and two runs can differ only in what is put out. -/

namespace StaticTyping

open List

def Names.IsSame (c : Names) : Prop := ∀ name, c name name

namespace Names.IsSame

variable {m : Mirror} {c : Names} (hc : c.IsSame)

include hc

lemma type (t : TypeExpr) : t.Mirrors m c t := .of_names t fun name _ => .inr (hc name)

lemma types (ts : List TypeExpr) : Forall₂ (TypeExpr.Mirrors m c) ts ts :=
  forall₂_same.mpr fun t _ => hc.type t

lemma optional (t : Option TypeExpr) : Option.Rel (TypeExpr.Mirrors m c) t t := by
  cases t with
  | none => exact .none
  | some t => exact .some (hc.type t)

lemma exprKind (kind : ExprKind) : kind.Mirrors m c kind := by
  cases kind with
  | cast value target => exact .cast (hc.type target)
  | record name fields => exact .record (hc name.name)
  | _ => exact .same (by simp) (by simp)

variable (hparams : ∀ name, m.params name name)

include hparams

lemma inside (ps : List Ident) : (m.inside c ps ps).IsSame := by
  intro name
  by_cases h : name ∈ ps.map (·.name)
  · exact .inl ⟨hparams name, h, h⟩
  · exact .inr ⟨hc name, h, h⟩

variable (hkinds : ∀ name kind, m.kinds name kind)

include hkinds

omit hc in
lemma parameters (ps : List Ident) : m.Parameters ps ps :=
  forall₂_same.mpr fun p _ => ⟨hparams p.name, rfl, hkinds p.name .typeParam⟩

lemma stmtKind (kind : StmtKind) : kind.Mirrors m c kind := by
  cases kind with
  | bind decl => exact .bind ⟨rfl, rfl, hc.optional _, rfl⟩
  | function decl =>
    have hinside := hc.inside hparams decl.typeParams
    refine .function ⟨rfl, parameters hparams hkinds _, ?_, hinside.optional _, rfl⟩
    exact forall₂_same.mpr fun p _ => ⟨rfl, rfl, rfl, rfl, hinside.optional _, rfl⟩
  | record kind decl =>
    have hinside := hc.inside hparams decl.typeParams
    refine .record ⟨rfl, parameters hparams hkinds _, ?_, rfl⟩
    exact forall₂_same.mpr fun f _ => ⟨rfl, rfl, hinside.type _⟩
  | enum decl =>
    have hinside := hc.inside hparams decl.typeParams
    refine .enum ⟨rfl, parameters hparams hkinds _, ?_⟩
    exact forall₂_same.mpr fun v _ => ⟨rfl, rfl, hinside.types _⟩
  | typeAlias decl => exact .typeAlias ⟨rfl, hc.type _⟩
  | _ => exact .plain rfl

end Names.IsSame

def ExprKind.ownNames : ExprKind → List String
  | .name value => [value]
  | _ => []

/-- The program uses the name for a value: in an expression, or where a statement declares it or looks
it up. Names of parameters, of what a pattern binds and of what a loop runs over do not count, since
none of them is declared in the outermost scope. -/
def Program.NamesValue (p : Program) (name : String) : Prop :=
  (∃ id, name ∈ (p.expr id).kind.ownNames) ∨ ∃ id, name ∈ (p.stmt id).kind.ownNames

/-- What a mirror needs so that a program may stand beside itself. -/
structure Mirror.Reflects (m : Mirror) (p : Program) : Prop where
  params (name : String) : m.params name name
  values {name : String} : p.NamesValue name → m.values name
  full (id : SymbolId) : m.full id
  kinds (name : String) (kind : SymbolKind) : m.kinds name kind

/-- What two runs of one program may put out side by side. -/
structure Outputs (waiting : Prop) where
  holds : List Diagnostic → List Diagnostic → Prop
  nil : holds [] []
  append {ds es ds' es' : List Diagnostic} : holds ds es → holds ds' es' → holds (ds ++ ds') (es ++ es')
  report {finding : Finding} (span : Span) : finding.isOrdinary = true →
    holds [finding.toDiagnostic span] [finding.toDiagnostic span]
  cycle (name : String) (span : Span) : waiting →
    holds [(Finding.aliasCycle name).toDiagnostic span] [(Finding.aliasCycle name).toDiagnostic span]

def Mirror.identity (known : StmtId → Prop) {waiting : Prop} (outputs : Outputs waiting) : Mirror where
  symbols := Eq
  params := Eq
  loose := False
  symbols_unique := biUnique_eq
  params_unique := biUnique_eq
  values _ := True
  declared _ := True
  known := known
  full _ := True
  fixed _ := True
  kinds _ _ := True
  exact := True
  waiting := waiting
  output := outputs.holds
  fixed_params _ := rfl
  exact_params _ h := h
  exact_strict _ h := h
  loose_fixed _ h := h.elim
  output_nil := outputs.nil
  output_append := outputs.append
  output_perm h := h.elim
  output_report {f g} span hcode hordinary hmessage := by
    have hsame : g.toDiagnostic span = f.toDiagnostic span := by
      simp only [Finding.toDiagnostic, hcode, hmessage trivial]
    rw [hsame]
    exact outputs.report span hordinary
  output_cycle := outputs.cycle

namespace Mirror

variable {known known' : StmtId → Prop} {waiting waiting' : Prop} {outputs : Outputs waiting}
  {outputs' : Outputs waiting'} {E E' : TypeExpr → TypeExpr → Prop}

lemma identity_reflects {p : Program} : (identity known outputs).Reflects p :=
  ⟨fun _ => rfl, fun _ => trivial, fun _ => trivial, fun _ _ => trivial⟩

lemma identity_context : (identity known outputs).Context Eq :=
  ⟨biUnique_eq, fun _ => rfl, fun _ h => h⟩

lemma eq_of_mirrors {a b : Ty} (h : a.Mirrors (identity known outputs).toPairing b) : a = b :=
  h.eq_of_identity (fun _ _ h => h) (fun _ _ h => h) fun h => h

/-- What is put out has no part in how states compare, and neither have targets of aliases that have
their types. -/
lemma States.retarget_identity {s t : State} (h : (identity known outputs).States E [Eq] s t)
    (hclosed : ∀ id, (s.symbols.get id).aliasTarget.isSome → (s.symbols.get id).ty ≠ none)
    (hknown : ∀ id, known' id → (s.declarations.lookup id).isSome) :
    (identity known' outputs').States E' [Eq] s t where
  __ := h
  symbols {i j} hij := { h.symbols hij with
      target := by
        rcases rel_cases (h.symbols hij).target with ⟨hx, hy⟩ | ⟨a, b, hx, hy, hname, -⟩
        · rw [hx, hy]
          exact .none
        · rw [hx, hy]
          exact .some ⟨hname, fun hty => absurd hty (hclosed i (by simp [hx]))⟩ }
  scopes := by
    have hscopes := h.scopes
    generalize s.scopes.frames = fs at hscopes
    generalize t.scopes.frames = gs at hscopes
    cases hscopes with
    | root _ hframes =>
      exact .root identity_context ⟨hframes.values, hframes.narrowed, fun hab =>
        rel_imp (hframes.types hab) fun _ _ hij =>
          ⟨hij.paired, hij.bound, trivial, hij.param, hij.other⟩⟩
  known hid := hknown _ hid

end Mirror

/-- The statements that `S` holds of, checked beside themselves with options that differ only in the
condition policy. Which items the program has plays no part. -/
def StmtTwins.same {m : Mirror} {p : Program} (hm : m.Reflects p) (items : List StmtId)
    {options options' : Options} (hoptions : options.Alike options')
    (hcondition : ∀ {a b : Ty} (span : Span), a.Mirrors m b →
      m.output (conditionReports options.conditionPolicy a span)
        (conditionReports options'.conditionPolicy b span))
    (S : StmtId → Prop) (hS : ∀ {id part}, S id → part ∈ (p.stmt id).kind.children → S part)
    (hdeclared : ∀ {id}, S id → m.declared id)
    (halias : ∀ {id decl}, S id → (p.stmt id).kind = .typeAlias decl → m.waiting ∨ m.known id) :
    StmtTwins m ⟨p, options⟩ ⟨{ p with items }, options'⟩ where
  exprs c _ := c.IsSame
  full := hm.full
  options := hoptions
  alike := ⟨rfl, fun _ => .same _⟩
  span _ := rfl
  kind hc := Names.IsSame.exprKind hc _
  child hc _ := hc
  callee hc _ _ := hc _
  named {_ id name} _ h := hm.values <| .inl ⟨id, by
    rw [show (p.expr id).kind = .name name from h]
    exact .head _⟩
  stmts c id := c.IsSame ∧ S id
  declared hid := hdeclared hid.2
  stmtDepth := rfl
  stmtSpan _ := rfl
  stmtKind hid := Names.IsSame.stmtKind hid.1 hm.params hm.kinds _
  typeName hid _ := ⟨hid.1 _, hm.kinds _ _⟩
  typeAlias hid h := halias hid.2 h
  held hid _ := Names.IsSame.inside hid.1 hm.params _
  inner hid hpart := ⟨Names.IsSame.inside hid.1 hm.params _, hS hid.2 hpart⟩
  ownName _ h := hm.values (.inr ⟨_, h⟩)
  condition := hcondition

end StaticTyping
