/-! Names in single quotes, as messages show them. -/

namespace StaticTyping.Text

/-- A single quote gets a backslash before it; a backslash stays as it is. -/
def escape : List Char → List Char
  | [] => []
  | c :: rest => if c = '\x27' then '\x5c' :: c :: escape rest else c :: escape rest

def quoted (name : String) : String :=
  "'" ++ String.ofList (escape name.toList) ++ "'"

/-- Quoted names with commas between them and the word `and` before the last. -/
def joinQuoted : List String → String
  | [] => ""
  | [last] => quoted last
  | [first, last] => quoted first ++ " and " ++ quoted last
  | first :: rest => quoted first ++ ", " ++ joinQuoted rest

end StaticTyping.Text
