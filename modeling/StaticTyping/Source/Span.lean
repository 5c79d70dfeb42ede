/-! Stretches of source text. -/

namespace StaticTyping

/-- A stretch of source text: where it starts and ends as line and column, and as offsets. Lines
count from one, so line zero marks a span that was never set. -/
structure Span where
  line : Nat := 0
  column : Nat := 0
  endLine : Nat := 0
  endColumn : Nat := 0
  start : Nat := 0
  stop : Nat := 0
  deriving DecidableEq, Inhabited, Repr

namespace Span

def isUnset (s : Span) : Bool := s.line == 0

def point (line column offset : Nat) : Span :=
  ⟨line, column, line, column, offset, offset⟩

/-- The least span over both, by offsets. An unset span leaves the other one as it is. -/
def union (a b : Span) : Span :=
  if a.isUnset then b
  else if b.isUnset then a
  else
    let first := if a.start ≤ b.start then a else b
    let last := if b.stop ≤ a.stop then a else b
    ⟨first.line, first.column, last.endLine, last.endColumn, first.start, last.stop⟩

end Span

end StaticTyping
