import StaticTyping.Source.Program

/-! Building programs node by node. Each node drawn without a span of its own gets a fresh line. -/

namespace StaticTyping

/-- The parameter `*`, after which all go by name. -/
def ParamDecl.separator : ParamDecl := { name := "*", kind := .separator }

/-- A type of that name, anywhere in the source. -/
def TypeExpr.ofName (name : String) (args : List TypeExpr) : TypeExpr := .named {} name args

structure Builder where
  program : Program := {}
  lines : Nat := 0
  deriving Inhabited, Repr

abbrev Build := StateM Builder

namespace Build

/-- The next line, from column 1 to 80, with a hundred offsets to a line. -/
def freshSpan : Build Span := do
  let line := (← get).lines + 1
  modify fun b => { b with lines := line }
  return ⟨line, 1, line, 80, line * 100, line * 100 + 80⟩

def exprSpan (id : ExprId) : Build Span := return ((← get).program.expr id).span

def stmtSpan (id : StmtId) : Build Span := return ((← get).program.stmt id).span

def exprAt (kind : ExprKind) (span : Span) : Build ExprId := do
  let p := (← get).program
  modify fun b => { b with program := { p with expressions := p.expressions.push ⟨span, kind⟩ } }
  return ⟨p.expressions.size⟩

def stmtAt (kind : StmtKind) (span : Span) : Build StmtId := do
  let p := (← get).program
  modify fun b => { b with program := { p with statements := p.statements.push ⟨span, kind⟩ } }
  return ⟨p.statements.size⟩

def expr (kind : ExprKind) : Build ExprId := do exprAt kind (← freshSpan)

def stmt (kind : StmtKind) : Build StmtId := do stmtAt kind (← freshSpan)

/-- Puts a statement at top level, after those already there. -/
def pushItem (id : StmtId) : Build StmtId := do
  modify fun b => { b with program := { b.program with items := b.program.items ++ [id] } }
  return id

def item (kind : StmtKind) : Build StmtId := do pushItem (← stmt kind)

def ident (name : String) : Build Ident := return ⟨name, ← freshSpan⟩

def name (text : String) : Build ExprId := expr (.name text)

def literal (value : Literal) : Build ExprId := expr (.literal value)

def callNamed (callee : String) (args : List Argument) : Build ExprId := do
  let id ← name callee
  expr (.call id args)

def member (object : ExprId) (property : String) : Build ExprId := do
  let property ← ident property
  expr (.member object property)

def record (typeName : String) (fields : List (String × ExprId)) : Build ExprId := do
  let typeName ← ident typeName
  let fields ← fields.mapM fun (field, value) => return ⟨← ident field, value⟩
  expr (.record typeName fields)

/-- An argument whose span is that of its value. -/
def argument (kind : ArgumentKind) (value : ExprId) : Build Argument :=
  return ⟨← exprSpan value, kind, value⟩

/-- A named argument spans its name and its value. -/
def namedArgument (argName : String) (value : ExprId) : Build Argument := do
  let argName ← ident argName
  return ⟨argName.span.union (← exprSpan value), .named argName, value⟩

def block (statements : List StmtId) : Build Block := return ⟨statements, ← freshSpan⟩

def bind (isConst : Bool) (bound : String) (type : Option TypeExpr) (value : Option ExprId) :
    Build StmtId := do
  let bound ← ident bound
  stmt (.bind ⟨isConst, bound, type, value⟩)

/-- An expression statement has the span of its expression. -/
def exprStmt (value : ExprId) : Build StmtId := do stmtAt (.expr value) (← exprSpan value)

def forLoop (binding : String) (iterable : ExprId) (body : Block) : Build StmtId := do
  let binding ← ident binding
  stmt (.forLoop binding iterable body)

def arm (pattern : Pattern) (body : List StmtId) : Build MatchArm := return ⟨pattern, ← block body⟩

def function (declared : String) (typeParams : List String) (params : List ParamDecl)
    (result : Option TypeExpr) (body : List StmtId) : Build StmtId := do
  let declared ← ident declared
  let typeParams ← typeParams.mapM ident
  let body ← block body
  stmt (.function ⟨false, declared, typeParams, params, result, body⟩)

def recordDecl (kind : RecordKind) (declared : String) (typeParams : List String)
    (fields : List (String × TypeExpr)) (methods : List StmtId) : Build StmtId := do
  let declared ← ident declared
  let typeParams ← typeParams.mapM ident
  let fields ← fields.mapM fun (field, type) => return ⟨field, ← freshSpan, type⟩
  stmt (.record kind ⟨false, declared, typeParams, fields, methods⟩)

def enumDecl (declared : String) (typeParams : List String)
    (variants : List (String × List TypeExpr)) : Build StmtId := do
  let declared ← ident declared
  let typeParams ← typeParams.mapM ident
  let variants ← variants.mapM fun (variant, payload) => return ⟨variant, ← freshSpan, payload⟩
  stmt (.enum ⟨false, declared, typeParams, variants⟩)

def aliasDecl (declared : String) (target : TypeExpr) : Build StmtId := do
  let declared ← ident declared
  stmt (.typeAlias ⟨false, declared, target⟩)

end Build

end StaticTyping
