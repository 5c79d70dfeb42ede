import StaticTyping.Diagnostic.Code
import StaticTyping.Json.Written
import StaticTyping.Source.Span

/-! Diagnostics and their order. -/

namespace StaticTyping

structure Diagnostic where
  code : Code
  message : String
  span : Option Span := none
  deriving DecidableEq, Inhabited, Repr

namespace Diagnostic

def level (d : Diagnostic) : Level := d.code.level

/-- One line, with line and column first where there is a span. -/
def text (d : Diagnostic) : String :=
  let body := d.level.name ++ "[" ++ d.code.text ++ "]: " ++ d.message
  match d.span with
  | some span => s!"{span.line}:{span.column}: {body}"
  | none => body

end Diagnostic

/-- Diagnostics in the order in which they are reported. -/
structure Diagnostics where
  entries : Array Diagnostic := #[]
  deriving DecidableEq, Inhabited, Repr

namespace Diagnostics

def size (ds : Diagnostics) : Nat := ds.entries.size

def isEmpty (ds : Diagnostics) : Bool := ds.entries.isEmpty

def push (ds : Diagnostics) (d : Diagnostic) : Diagnostics := ⟨ds.entries.push d⟩

def append (ds others : Diagnostics) : Diagnostics := ⟨ds.entries ++ others.entries⟩

def hasErrors (ds : Diagnostics) : Bool := ds.entries.any (·.level == .error)

def codes (ds : Diagnostics) : List String := ds.entries.toList.map (·.code.text)

def count (ds : Diagnostics) (code : Code) : Nat := ds.entries.countP (·.code == code)

/-- Moves what came from `middle` on ahead of what came from `start` to `middle`. -/
def hoist (ds : Diagnostics) (start middle : Nat) : Diagnostics :=
  if start ≤ middle ∧ middle ≤ ds.size then
    let entries := ds.entries.toList
    ⟨(entries.take start ++ entries.drop middle ++ (entries.take middle).drop start).toArray⟩
  else ds

def spanJson (depth : Nat) (s : Span) : String :=
  Json.objectText depth [
    ("line", toString s.line), ("column", toString s.column),
    ("end_line", toString s.endLine), ("end_column", toString s.endColumn),
    ("start", toString s.start), ("end", toString s.stop)]

def entryJson (depth : Nat) (d : Diagnostic) : String :=
  Json.objectText depth [
    ("code", Json.quote d.code.text), ("message", Json.quote d.message),
    ("level", Json.quote d.level.name),
    ("span", (d.span.map (spanJson (depth + 1))).getD "null")]

def toJson (ds : Diagnostics) : String :=
  Json.arrayText 0 (ds.entries.toList.map (entryJson 1))

end Diagnostics

end StaticTyping
