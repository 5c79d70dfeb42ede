import StaticTyping.Source.Expr

/-! Statements and declarations. -/

namespace StaticTyping

structure StmtId where
  index : Nat
  deriving DecidableEq, Inhabited, Repr

structure Block where
  statements : List StmtId := []
  span : Span := {}
  deriving DecidableEq, Inhabited, Repr

structure LetDecl where
  isConst : Bool := false
  name : Ident
  type : Option TypeExpr := none
  value : Option ExprId := none
  deriving Inhabited, Repr

/-- Every ordinary parameter after a separator, or after the variadic one, goes by name only. -/
inductive ParamKind where
  | ordinary | variadic | kwVariadic | separator
  deriving DecidableEq, Inhabited, Repr

structure ParamDecl where
  name : String
  span : Span := {}
  kind : ParamKind := .ordinary
  isMutable : Bool := false
  type : Option TypeExpr := none
  default : Option ExprId := none
  deriving Inhabited, Repr

structure FunctionDecl where
  isPublic : Bool := false
  name : Ident
  typeParams : List Ident := []
  params : List ParamDecl := []
  result : Option TypeExpr := none
  body : Block := {}
  deriving Inhabited, Repr

structure FieldDecl where
  name : String
  span : Span := {}
  type : TypeExpr
  deriving Inhabited, Repr

inductive RecordKind where
  | structType | classType
  deriving DecidableEq, Inhabited, Repr

structure RecordDecl where
  isPublic : Bool := false
  name : Ident
  typeParams : List Ident := []
  fields : List FieldDecl := []
  methods : List StmtId := []
  deriving Inhabited, Repr

structure VariantDecl where
  name : String
  span : Span := {}
  payload : List TypeExpr := []
  deriving Inhabited, Repr

structure EnumDecl where
  isPublic : Bool := false
  name : Ident
  typeParams : List Ident := []
  variants : List VariantDecl := []
  deriving Inhabited, Repr

structure AliasDecl where
  isPublic : Bool := false
  name : Ident
  target : TypeExpr
  deriving Inhabited, Repr

inductive PatternKind where
  | wildcard
  | name (name : String)
  | literal (literal : Literal)
  | variant (name : Ident) (bindings : List Ident)
  deriving DecidableEq, Inhabited, Repr

structure Pattern where
  span : Span := {}
  kind : PatternKind
  deriving DecidableEq, Inhabited, Repr

structure MatchArm where
  pattern : Pattern
  body : Block
  deriving DecidableEq, Inhabited, Repr

inductive StmtKind where
  | bind (decl : LetDecl)
  | function (decl : FunctionDecl)
  | record (kind : RecordKind) (decl : RecordDecl)
  | enum (decl : EnumDecl)
  | typeAlias (decl : AliasDecl)
  | branch (condition : ExprId) (consequent : Block) (alternative : Option Block)
  | whileLoop (condition : ExprId) (body : Block)
  | forLoop (binding : Ident) (iterable : ExprId) (body : Block)
  | ret (value : Option ExprId)
  | breakLoop
  | continueLoop
  | cases (subject : ExprId) (arms : List MatchArm)
  | expr (value : ExprId)
  | block (block : Block)
  deriving Inhabited, Repr

structure Stmt where
  span : Span := {}
  kind : StmtKind
  deriving Inhabited, Repr

end StaticTyping
