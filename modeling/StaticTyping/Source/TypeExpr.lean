import StaticTyping.Source.Span

/-! Types as they are written in a program. -/

namespace StaticTyping

/-- A hole is what a parser leaves where it could not go on. -/
inductive TypeExpr where
  | named (span : Span) (name : String) (args : List TypeExpr)
  | union (span : Span) (members : List TypeExpr)
  | tuple (span : Span) (elements : List TypeExpr)
  | fn (span : Span) (params : List TypeExpr) (result : TypeExpr)
  | hole (span : Span)
  deriving Inhabited, Repr

def TypeExpr.span : TypeExpr → Span
  | .named span _ _ | .union span _ | .tuple span _ | .fn span _ _ | .hole span => span

end StaticTyping
