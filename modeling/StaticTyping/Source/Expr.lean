import StaticTyping.Source.TypeExpr

/-! Expressions. The nodes of a program lie in an arena and name their parts by index. -/

namespace StaticTyping

structure ExprId where
  index : Nat
  deriving DecidableEq, Inhabited, Repr

structure Ident where
  name : String
  span : Span := {}
  deriving DecidableEq, Inhabited, Repr

/-- An integer keeps its digits as written. The value of a float plays no part in checking. -/
inductive Literal where
  | int (digits : String)
  | float
  | string (value : String)
  | bool (value : Bool)
  | null
  deriving DecidableEq, Inhabited, Repr

inductive UnaryOp where
  | plus | minus | not
  deriving DecidableEq, Inhabited, Repr

inductive BinaryOp where
  | add | subtract | multiply | divide | modulo | bitOr
  | equal | notEqual
  | greater | greaterEqual | less | lessEqual
  | and | or | is
  deriving DecidableEq, Inhabited, Repr

namespace BinaryOp

def all : List BinaryOp :=
  [add, subtract, multiply, divide, modulo, bitOr, equal, notEqual,
    greater, greaterEqual, less, lessEqual, and, or, is]

def symbol : BinaryOp → String
  | add => "+"
  | subtract => "-"
  | multiply => "*"
  | divide => "/"
  | modulo => "%"
  | bitOr => "|"
  | equal => "=="
  | notEqual => "!="
  | greater => ">"
  | greaterEqual => ">="
  | less => "<"
  | lessEqual => "<="
  | and => "&&"
  | or => "||"
  | is => "is"

end BinaryOp

inductive ArgumentKind where
  | positional
  | named (name : Ident)
  | spread
  | keywordSpread
  deriving DecidableEq, Inhabited, Repr

structure Argument where
  span : Span := {}
  kind : ArgumentKind
  value : ExprId
  deriving DecidableEq, Inhabited, Repr

structure FieldInit where
  name : Ident
  value : ExprId
  deriving DecidableEq, Inhabited, Repr

structure MapEntry where
  key : ExprId
  value : ExprId
  deriving DecidableEq, Inhabited, Repr

/-- An assignment with an operator is a compound one. -/
inductive ExprKind where
  | name (name : String)
  | literal (literal : Literal)
  | unary (op : UnaryOp) (operand : ExprId)
  | binary (op : BinaryOp) (left right : ExprId)
  | assign (op : Option BinaryOp) (target value : ExprId)
  | call (callee : ExprId) (args : List Argument)
  | member (object : ExprId) (property : Ident)
  | index (object index : ExprId)
  | record (name : Ident) (fields : List FieldInit)
  | array (elements : List ExprId)
  | map (entries : List MapEntry)
  | tuple (elements : List ExprId)
  | cast (value : ExprId) (target : TypeExpr)
  | group (inner : ExprId)
  | hole
  deriving Inhabited, Repr

structure Expr where
  span : Span := {}
  kind : ExprKind
  deriving Inhabited, Repr

end StaticTyping
