import StaticTyping.Ty.Basic

/-! The text of a type in messages. -/

namespace StaticTyping.Ty

mutual

/-- Arguments are written only where there are some. -/
def text : Ty → String
  | .prim p => p.name
  | .named head none => head.name
  | .named head (some []) => head.name
  | .named head (some args) => head.name ++ "<" ++ joinTexts ", " args ++ ">"
  | .union members => joinTexts " | " members
  | .tuple elements => "(" ++ joinTexts ", " elements ++ ")"
  | .fn params result => "fn(" ++ joinTexts ", " params ++ ") -> " ++ text result
  | .param name => name
  | .error => "<error>"
  | .unknown => "<unknown>"

def joinTexts (separator : String) : List Ty → String
  | [] => ""
  | [t] => text t
  | t :: rest => text t ++ separator ++ joinTexts separator rest

end

instance : ToString Ty := ⟨text⟩

end StaticTyping.Ty
