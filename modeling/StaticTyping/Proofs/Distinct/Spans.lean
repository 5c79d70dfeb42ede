import StaticTyping.Source.Program
import Mathlib.Data.List.Nodup
import Mathlib.Tactic.Lemma

/-! The spans that occur in a program, and at how many of them a diagnostic stands. -/

namespace StaticTyping

open List

mutual

def TypeExpr.spans : TypeExpr → List Span
  | .named span _ args => span :: spansAll args
  | .union span members => span :: spansAll members
  | .tuple span elements => span :: spansAll elements
  | .fn span params result => span :: (spansAll params ++ result.spans)
  | .hole span => [span]

def TypeExpr.spansAll : List TypeExpr → List Span
  | [] => []
  | t :: rest => t.spans ++ spansAll rest

end

section Nodes

def Argument.spans (arg : Argument) : List Span :=
  match arg.kind with
  | .named name => [arg.span, name.span]
  | .positional | .spread | .keywordSpread => [arg.span]

/-- The spans in an expression apart from its own and those of its children. -/
def ExprKind.spans : ExprKind → List Span
  | .call _ args => args.flatMap Argument.spans
  | .member _ property => [property.span]
  | .record type fields => type.span :: fields.map (·.name.span)
  | .cast _ target => target.spans
  | .name _ | .literal _ | .unary _ _ | .binary _ _ _ | .assign _ _ _ | .index _ _ | .array _
  | .map _ | .tuple _ | .group _ | .hole => []

def Expr.spans (node : Expr) : List Span := node.span :: node.kind.spans

/-- The types written in a declaration, which its parts refer to. -/
def FunctionDecl.types (decl : FunctionDecl) : List TypeExpr :=
  decl.params.filterMap (·.type) ++ decl.result.toList

def LetDecl.spans (decl : LetDecl) : List Span :=
  decl.name.span :: decl.type.toList.flatMap TypeExpr.spans

def FunctionDecl.spans (decl : FunctionDecl) : List Span :=
  decl.name.span :: decl.body.span :: (decl.typeParams.map (·.span) ++ decl.params.map (·.span) ++
    decl.types.flatMap TypeExpr.spans)

def RecordDecl.spans (decl : RecordDecl) : List Span :=
  decl.name.span :: (decl.typeParams.map (·.span) ++ decl.fields.map (·.span) ++
    (decl.fields.map (·.type)).flatMap TypeExpr.spans)

def EnumDecl.spans (decl : EnumDecl) : List Span :=
  decl.name.span :: (decl.typeParams.map (·.span) ++ decl.variants.map (·.span) ++
    (decl.variants.flatMap (·.payload)).flatMap TypeExpr.spans)

def AliasDecl.spans (decl : AliasDecl) : List Span := decl.name.span :: decl.target.spans

def Pattern.spans (pattern : Pattern) : List Span :=
  match pattern.kind with
  | .variant name bindings => pattern.span :: name.span :: bindings.map (·.span)
  | .wildcard | .name _ | .literal _ => [pattern.span]

def MatchArm.spans (arm : MatchArm) : List Span := arm.body.span :: arm.pattern.spans

/-- The spans in a statement apart from its own and those of expressions and other statements. -/
def StmtKind.spans : StmtKind → List Span
  | .bind decl => decl.spans
  | .function decl => decl.spans
  | .record _ decl => decl.spans
  | .enum decl => decl.spans
  | .typeAlias decl => decl.spans
  | .branch _ consequent alternative => consequent.span :: alternative.toList.map (·.span)
  | .whileLoop _ body | .block body => [body.span]
  | .forLoop binding _ body => [binding.span, body.span]
  | .cases _ arms => arms.flatMap MatchArm.spans
  | .ret _ | .breakLoop | .continueLoop | .expr _ => []

def Stmt.spans (node : Stmt) : List Span := node.span :: node.kind.spans

/-- Where names stand that are in the list or among `seen` before. -/
def Ident.repeats : List String → List Ident → List Span
  | _, [] => []
  | seen, ident :: rest =>
    if ident.name ∈ seen then ident.span :: repeats seen rest
    else repeats (ident.name :: seen) rest

lemma Ident.repeats_sublist (seen : List String) (idents : List Ident) :
    (repeats seen idents).Sublist (idents.map (·.span)) := by
  induction idents generalizing seen with
  | nil => exact .slnil
  | cons ident rest ih =>
    rw [repeats, map_cons]
    split
    · exact (ih seen).cons_cons _
    · exact (ih _).cons _

/-- The type parameters of a function or record that have the name of an earlier one. They are
declared once when the declaration is registered and again when its body is checked. -/
def StmtKind.repeatedTypeParams : StmtKind → List Span
  | .function decl => Ident.repeats [] decl.typeParams
  | .record _ decl => Ident.repeats [] decl.typeParams
  | _ => []

lemma StmtKind.repeatedTypeParams_sublist (kind : StmtKind) :
    kind.repeatedTypeParams.Sublist kind.spans := by
  cases kind with
  | function decl =>
    refine (((Ident.repeats_sublist [] decl.typeParams).trans ?_).cons _).cons _
    rw [append_assoc]
    exact sublist_append_left _ _
  | record kind decl =>
    refine ((Ident.repeats_sublist [] decl.typeParams).trans ?_).cons _
    rw [append_assoc]
    exact sublist_append_left _ _
  | _ => exact nil_sublist _

def StmtKind.paramNames : StmtKind → List String
  | .function decl => (decl.params.filter (·.kind != .separator)).map (·.name)
  | _ => []

end Nodes

namespace Program

/-- No function has two parameters of one name. -/
def DistinctParams (p : Program) : Prop := ∀ node ∈ p.statements.toList, node.kind.paramNames.Nodup

instance (p : Program) : Decidable p.DistinctParams :=
  inferInstanceAs (Decidable (∀ node ∈ p.statements.toList, node.kind.paramNames.Nodup))

lemma DistinctParams.nodup {p : Program} (h : p.DistinctParams) {id : StmtId} {decl : FunctionDecl}
    (hkind : (p.stmt id).kind = .function decl) :
    ((decl.params.filter (·.kind != .separator)).map (·.name)).Nodup := by
  cases hnode : p.statements[id.index]? with
  | none => simp [Program.stmt, hnode, Stmt.dangling] at hkind
  | some node =>
    have hnames := h node (Array.mem_toList_iff.mpr (Array.mem_of_getElem? hnode))
    have hkind : node.kind = .function decl := by simpa [Program.stmt, hnode] using hkind
    rwa [hkind] at hnames

def repeatedTypeParams (p : Program) : List Span :=
  p.statements.toList.flatMap (·.kind.repeatedTypeParams)

def isTuple (p : Program) (id : ExprId) : Bool :=
  match (p.expr id).kind with
  | .tuple _ => true
  | _ => false

/-- Whether an argument spreads something other than a tuple written out in the call, so that what is
found wrong with any of its elements is reported for the argument as a whole. -/
def isLooseSpread (p : Program) (arg : Argument) : Bool := arg.kind == .spread && !p.isTuple arg.value

def looseSpreads (p : Program) (node : Expr) : List Span :=
  match node.kind with
  | .call _ args => (args.filter p.isLooseSpread).map (·.span)
  | _ => []

def spreadSpans (p : Program) : List Span := p.expressions.toList.flatMap p.looseSpreads

end Program

end StaticTyping
