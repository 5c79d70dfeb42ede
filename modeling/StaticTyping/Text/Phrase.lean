/-! Turns of phrase that several messages share. -/

namespace StaticTyping.Text

/-- A count and its noun, which takes an `s` unless the count is one. -/
def plural (count : Nat) (noun : String) : String :=
  if count = 1 then s!"{count} {noun}" else s!"{count} {noun}s"

/-- The context stands first with a colon after it, and is left out when empty. -/
def mismatch (context expected found : String) : String :=
  if context.isEmpty then s!"expected {expected}, found {found}"
  else s!"{context}: expected {expected}, found {found}"

end StaticTyping.Text
