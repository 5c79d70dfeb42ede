import StaticTyping.Proofs.Mirror.Declaration
import StaticTyping.Proofs.Visited.Forest

/-! Renaming the type parameters of a declaration, with all that the declaration writes about them. -/

namespace StaticTyping

open List StmtKind Mirror

def renameTo (a b name : String) : String := if name = a then b else name

mutual

/-- Built-in names mean the same everywhere, so they stay. -/
def TypeExpr.rename (f : String → String) : TypeExpr → TypeExpr
  | .named span name args =>
    .named span (if isBuiltIn name then name else f name) (TypeExpr.renameAll f args)
  | .union span members => .union span (TypeExpr.renameAll f members)
  | .tuple span elements => .tuple span (TypeExpr.renameAll f elements)
  | .fn span params result => .fn span (TypeExpr.renameAll f params) (result.rename f)
  | .hole span => .hole span

def TypeExpr.renameAll (f : String → String) : List TypeExpr → List TypeExpr
  | [] => []
  | t :: rest => t.rename f :: TypeExpr.renameAll f rest

end

def Ident.rename (f : String → String) (ident : Ident) : Ident := { ident with name := f ident.name }

def ParamDecl.rename (f : String → String) (param : ParamDecl) : ParamDecl :=
  { param with type := param.type.map (TypeExpr.rename f) }

def FieldDecl.rename (f : String → String) (field : FieldDecl) : FieldDecl :=
  { field with type := field.type.rename f }

def VariantDecl.rename (f : String → String) (variant : VariantDecl) : VariantDecl :=
  { variant with payload := TypeExpr.renameAll f variant.payload }

/-- Renames the type parameters and all types that a statement itself writes, but not what it
declares. -/
def StmtKind.rename (f : String → String) : StmtKind → StmtKind
  | .bind decl => .bind { decl with type := decl.type.map (TypeExpr.rename f) }
  | .function decl =>
    .function { decl with
      typeParams := decl.typeParams.map (Ident.rename f)
      params := decl.params.map (ParamDecl.rename f)
      result := decl.result.map (TypeExpr.rename f) }
  | .record kind decl =>
    .record kind { decl with
      typeParams := decl.typeParams.map (Ident.rename f)
      fields := decl.fields.map (FieldDecl.rename f) }
  | .enum decl =>
    .enum { decl with
      typeParams := decl.typeParams.map (Ident.rename f)
      variants := decl.variants.map (VariantDecl.rename f) }
  | .typeAlias decl => .typeAlias { decl with target := decl.target.rename f }
  | kind => kind

/-- Renames the type of a cast and that of a record that is written out. -/
def ExprKind.rename (f : String → String) : ExprKind → ExprKind
  | .cast value target => .cast value (target.rename f)
  | .record typeName fields => .record (typeName.rename f) fields
  | kind => kind

/-- The type names that a statement itself writes, with those of the type parameters and types that it
declares. -/
def StmtKind.typeNames : StmtKind → List String
  | .bind decl => decl.type.toList.flatMap (·.names)
  | .function decl =>
    decl.typeParams.map (·.name) ++ decl.params.flatMap (fun p => p.type.toList.flatMap (·.names)) ++
      decl.result.toList.flatMap (·.names)
  | .record _ decl =>
    decl.name.name :: decl.typeParams.map (·.name) ++ decl.fields.flatMap (·.type.names)
  | .enum decl =>
    decl.name.name :: decl.typeParams.map (·.name) ++
      decl.variants.flatMap (TypeExpr.namesAll ·.payload)
  | .typeAlias decl => decl.name.name :: decl.target.names
  | _ => []

/-- The names in an expression itself that may mean types. What is called by its name may be a
class. -/
def ExprKind.typeNames : ExprKind → List String
  | .cast _ target => target.names
  | .record typeName _ => [typeName.name]
  | .name called => [called]
  | _ => []

namespace Program

/-- The program with one type name for another throughout a declaration, in its list of type
parameters too. -/
def renameParam (p : Program) (d : StmtId) (a b : String) : Program where
  expressions := p.expressions.mapIdx fun i e =>
    if ⟨i⟩ ∈ p.exprsBelow d then { e with kind := e.kind.rename (renameTo a b) } else e
  statements := p.statements.mapIdx fun i s =>
    if ⟨i⟩ ∈ p.stmtsBelow d then { s with kind := s.kind.rename (renameTo a b) } else s
  items := p.items

variable {p : Program} {d : StmtId} {a b : String}

lemma renameParam_expr (id : ExprId) : (p.renameParam d a b).expr id =
    if id ∈ p.exprsBelow d then { p.expr id with kind := (p.expr id).kind.rename (renameTo a b) }
    else p.expr id := by
  simp only [expr, renameParam, Array.getElem?_mapIdx]
  cases p.expressions[id.index]? with
  | none => simp [Expr.dangling, ExprKind.rename]
  | some e => rfl

lemma renameParam_stmt (id : StmtId) : (p.renameParam d a b).stmt id =
    if id ∈ p.stmtsBelow d then { p.stmt id with kind := (p.stmt id).kind.rename (renameTo a b) }
    else p.stmt id := by
  simp only [stmt, renameParam, Array.getElem?_mapIdx]
  cases p.statements[id.index]? with
  | none => simp [Stmt.dangling, rename]
  | some s => rfl

end Program

section Id

mutual

theorem TypeExpr.rename_id : ∀ t : TypeExpr, t.rename id = t
  | .named span name args => by simp [TypeExpr.rename, renameAll_id args]
  | .union span members => by simp [TypeExpr.rename, renameAll_id members]
  | .tuple span elements => by simp [TypeExpr.rename, renameAll_id elements]
  | .fn span params result => by simp [TypeExpr.rename, renameAll_id params, rename_id result]
  | .hole span => rfl

theorem TypeExpr.renameAll_id : ∀ ts : List TypeExpr, TypeExpr.renameAll id ts = ts
  | [] => rfl
  | t :: rest => by rw [TypeExpr.renameAll, rename_id t, renameAll_id rest]

end

lemma TypeExpr.map_rename_id (t : Option TypeExpr) : t.map (TypeExpr.rename id) = t := by
  cases t with
  | none => rfl
  | some t => exact congrArg some t.rename_id

lemma map_eq_self {α : Type} {f : α → α} (h : ∀ x, f x = x) (xs : List α) : xs.map f = xs := by
  rw [funext h]
  exact map_id' xs

lemma StmtKind.rename_id (kind : StmtKind) : kind.rename id = kind := by
  have hidents : ∀ ps : List Ident, ps.map (Ident.rename id) = ps := map_eq_self fun _ => rfl
  cases kind with
  | bind decl => simp only [rename, TypeExpr.map_rename_id]
  | function decl =>
    have hparams := map_eq_self (f := ParamDecl.rename id) fun p => by
      rw [ParamDecl.rename, TypeExpr.map_rename_id]
    simp only [rename, hidents, hparams, TypeExpr.map_rename_id]
  | record kind decl =>
    have hfields := map_eq_self (f := FieldDecl.rename id) fun field => by
      rw [FieldDecl.rename, TypeExpr.rename_id]
    simp only [rename, hidents, hfields]
  | enum decl =>
    have hvariants := map_eq_self (f := VariantDecl.rename id) fun variant => by
      rw [VariantDecl.rename, TypeExpr.renameAll_id]
    simp only [rename, hidents, hvariants]
  | typeAlias decl => simp only [rename, TypeExpr.rename_id]
  | _ => rfl

lemma ExprKind.rename_id (kind : ExprKind) : kind.rename id = kind := by
  cases kind with
  | cast value target => rw [ExprKind.rename, TypeExpr.rename_id]
  | _ => rfl

end Id

section Mirrors

variable {m : Mirror} {c : Names} {f : String → String}
  (hf : ∀ name, isBuiltIn name = false → isBuiltIn (f name) = false)

include hf

omit hf in
lemma TypeExpr.mirrors_renameAll {ts : List TypeExpr}
    (hts : ∀ t ∈ ts, (∀ name ∈ t.names, c name (f name)) → t.Mirrors m c (t.rename f))
    (h : ∀ name ∈ TypeExpr.namesAll ts, c name (f name)) :
    Forall₂ (TypeExpr.Mirrors m c) ts (TypeExpr.renameAll f ts) := by
  induction ts with
  | nil => exact .nil
  | cons t rest ih =>
    rw [forall_mem_cons] at hts
    exact .cons (hts.1 fun name hname => h name (mem_append_left _ hname))
      (ih hts.2 fun name hname => h name (mem_append_right _ hname))

theorem TypeExpr.mirrors_rename : ∀ (t : TypeExpr), (∀ name ∈ t.names, c name (f name)) →
    t.Mirrors m c (t.rename f)
  | .named span name args, h => by
    have hargs : Forall₂ (TypeExpr.Mirrors m c) args (TypeExpr.renameAll f args) :=
      mirrors_renameAll (fun t _ => t.mirrors_rename) fun other hother => h other (mem_cons_of_mem _ hother)
    rw [TypeExpr.rename]
    cases hname : isBuiltIn name with
    | true => exact .builtIn hname hargs
    | false => exact .declared hname (hf name hname) (h name (.head _)) hargs
  | .union span members, h => .union (mirrors_renameAll (fun t _ => t.mirrors_rename) h) (.inl rfl)
  | .tuple span elements, h => .tuple (mirrors_renameAll (fun t _ => t.mirrors_rename) h)
  | .fn span params result, h =>
    .fn (mirrors_renameAll (fun t _ => t.mirrors_rename) fun name hname =>
        h name (mem_append_left _ hname))
      (mirrors_rename result fun name hname => h name (mem_append_right _ hname))
  | .hole span, _ => .hole span

lemma TypeExpr.mirrors_map_rename (t : Option TypeExpr)
    (h : ∀ name ∈ t.toList.flatMap (·.names), c name (f name)) :
    Option.Rel (TypeExpr.Mirrors m c) t (t.map (TypeExpr.rename f)) := by
  cases t with
  | none => exact .none
  | some t => exact .some (t.mirrors_rename hf (by simpa using h))

lemma ExprKind.mirrors_rename (kind : ExprKind) (h : ∀ name ∈ kind.typeNames, c name (f name)) :
    kind.Mirrors m c (kind.rename f) := by
  cases kind with
  | cast value target => exact .cast (target.mirrors_rename hf h)
  | record typeName fields => exact .record (h _ (.head _))
  | _ => exact .same (by simp) (by simp)

omit hf in
lemma forall₂_map {α : Type} {R : α → α → Prop} {g : α → α} {xs : List α}
    (h : ∀ x ∈ xs, R x (g x)) : Forall₂ R xs (xs.map g) :=
  forall₂_map_right_iff.mpr (forall₂_same.mpr h)

/-- A statement mirrors what it is renamed to if its type parameters do, and if inside it the names
stand for what they are renamed to. -/
lemma StmtKind.mirrors_rename (kind : StmtKind)
    (hparams : ∀ p ∈ kind.typeParams, m.params p.name (f p.name))
    (hkinds : ∀ name, m.kinds name .typeParam)
    (h : ∀ name ∈ kind.typeNames, m.inside c kind.typeParams (kind.rename f).typeParams name (f name)) :
    kind.Mirrors m c (kind.rename f) := by
  have hidents : ∀ ps : List Ident, (∀ p ∈ ps, m.params p.name (f p.name)) →
      m.Parameters ps (ps.map (Ident.rename f)) := fun ps h =>
    forall₂_map fun p hp => ⟨h p hp, rfl, hkinds _⟩
  cases kind with
  | bind decl =>
    simp only [typeParams, rename, inside, map_nil, enter_nil] at h
    exact .bind ⟨rfl, rfl, TypeExpr.mirrors_map_rename hf _ h, rfl⟩
  | function decl =>
    refine .function ⟨rfl, hidents _ hparams, forall₂_map fun p hp => ?_, ?_, rfl⟩
    · refine ⟨rfl, rfl, rfl, rfl, TypeExpr.mirrors_map_rename hf _ fun name hname => h name ?_, rfl⟩
      exact mem_append_left _ (mem_append_right _ (mem_flatMap.mpr ⟨p, hp, hname⟩))
    · exact TypeExpr.mirrors_map_rename hf _ fun name hname => h name (mem_append_right _ hname)
  | record kind decl =>
    refine .record ⟨rfl, hidents _ hparams, forall₂_map fun field hfield => ?_, rfl⟩
    refine ⟨rfl, rfl, TypeExpr.mirrors_rename hf _ fun name hname => h name ?_⟩
    exact mem_append_right _ (mem_flatMap.mpr ⟨field, hfield, hname⟩)
  | enum decl =>
    refine .enum ⟨rfl, hidents _ hparams, forall₂_map fun variant hvariant => ?_⟩
    refine ⟨rfl, rfl, TypeExpr.mirrors_renameAll (fun t _ => t.mirrors_rename hf) fun name hname => h name ?_⟩
    exact mem_append_right _ (mem_flatMap.mpr ⟨variant, hvariant, hname⟩)
  | typeAlias decl =>
    simp only [typeParams, rename, inside, map_nil, enter_nil] at h
    exact .typeAlias ⟨rfl, TypeExpr.mirrors_rename hf _ fun name hname => h name (.tail _ hname)⟩
  | _ => exact .plain rfl

end Mirrors

end StaticTyping
