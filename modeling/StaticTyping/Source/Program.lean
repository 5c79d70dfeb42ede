import StaticTyping.Source.Stmt

/-! Whole programs. An index past the arena reads as a hole or as an empty block, so that every
index means something. -/

namespace StaticTyping

def Expr.dangling : Expr := ⟨{}, .hole⟩

def Stmt.dangling : Stmt := ⟨{}, .block {}⟩

/-- Two arenas of nodes and the statements at top level, in source order. -/
structure Program where
  expressions : Array Expr := #[]
  statements : Array Stmt := #[]
  items : List StmtId := []
  deriving Inhabited, Repr

namespace Program

def expr (p : Program) (id : ExprId) : Expr := (p.expressions[id.index]?).getD Expr.dangling

def stmt (p : Program) (id : StmtId) : Stmt := (p.statements[id.index]?).getD Stmt.dangling

/-- A path through an arena that meets no node twice has at most this many nodes: those of the arena
and one index past it. -/
def exprDepth (p : Program) : Nat := p.expressions.size + 1

def stmtDepth (p : Program) : Nat := p.statements.size + 1

def ungroupWithin (p : Program) : Nat → ExprId → ExprId
  | 0, id => id
  | depth + 1, id =>
    match (p.expr id).kind with
    | .group inner => ungroupWithin p depth inner
    | _ => id

/-- The expression inside any number of parentheses. -/
def ungroup (p : Program) (id : ExprId) : ExprId := p.ungroupWithin p.exprDepth id

def rootNameWithin (p : Program) : Nat → ExprId → Option String
  | 0, _ => none
  | depth + 1, id =>
    match (p.expr id).kind with
    | .name name => some name
    | .member object _ => rootNameWithin p depth object
    | .index object _ => rootNameWithin p depth object
    | .group inner => rootNameWithin p depth inner
    | _ => none

/-- The name that a path of members, indices and parentheses starts from. -/
def rootName? (p : Program) (id : ExprId) : Option String := p.rootNameWithin p.exprDepth id

def isLiteralNode (p : Program) (id : ExprId) : Bool :=
  match (p.expr id).kind with
  | .literal _ => true
  | _ => false

/-- A literal, a literal with a sign, or one of these in parentheses. -/
def isLiteral (p : Program) (id : ExprId) : Bool :=
  match (p.expr (p.ungroup id)).kind with
  | .literal _ => true
  | .unary .minus operand => p.isLiteralNode operand
  | .unary .plus operand => p.isLiteralNode operand
  | _ => false

end Program

end StaticTyping
