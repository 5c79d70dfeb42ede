/-! Strings and nested lines as JSON writes them. -/

namespace StaticTyping.Json

def hexDigit (n : Nat) : Char := if n < 10 then Char.ofNat (48 + n) else Char.ofNat (87 + n)

/-- Quotes, backslashes and control characters are escaped, the common ones by a letter. -/
def escapeChar (c : Char) : List Char :=
  if c = '"' then ['\x5c', '"']
  else if c = '\x5c' then ['\x5c', '\x5c']
  else if c = '\x08' then ['\x5c', 'b']
  else if c = '\x0c' then ['\x5c', 'f']
  else if c = '\n' then ['\x5c', 'n']
  else if c = '\r' then ['\x5c', 'r']
  else if c = '\t' then ['\x5c', 't']
  else if c.toNat < 0x20 then
    ['\x5c', 'u', '0', '0', hexDigit (c.toNat / 16), hexDigit (c.toNat % 16)]
  else [c]

def quote (text : String) : String :=
  "\"" ++ String.ofList (text.toList.flatMap escapeChar) ++ "\""

def indent (depth : Nat) : String := String.ofList (List.replicate (2 * depth) ' ')

/-- Entries between an opening and a closing bracket, one to a line and two blanks further in than the
brackets. No entries leave nothing between the brackets. -/
def bracketed (depth : Nat) (opening closing : String) (entries : List String) : String :=
  if entries.isEmpty then opening ++ closing
  else
    opening ++ "\n" ++ ",\n".intercalate (entries.map (indent (depth + 1) ++ ·)) ++ "\n" ++
      indent depth ++ closing

def arrayText (depth : Nat) (elements : List String) : String := bracketed depth "[" "]" elements

def objectText (depth : Nat) (fields : List (String × String)) : String :=
  bracketed depth "\x7b" "\x7d" (fields.map fun (key, value) => quote key ++ ": " ++ value)

end StaticTyping.Json
