/-! The tokens of a JSON text. -/

namespace StaticTyping.Json

/-- One character of a string, or one 16-bit unit given by its four hexadecimal digits. -/
inductive Piece where
  | char (c : Char)
  | unit (value : Nat)
  deriving DecidableEq, Repr

/-- A string whose units do not pair up has no value. -/
inductive Token where
  | openBrace | closeBrace | openBracket | closeBracket | comma | colon
  | null
  | bool (value : Bool)
  | number
  | string (value : Option String)
  deriving DecidableEq, Repr

def hexDigit? (c : Char) : Option Nat :=
  if '0' ≤ c ∧ c ≤ '9' then some (c.toNat - '0'.toNat)
  else if 'a' ≤ c ∧ c ≤ 'f' then some (c.toNat - 'a'.toNat + 10)
  else if 'A' ≤ c ∧ c ≤ 'F' then some (c.toNat - 'A'.toNat + 10)
  else none

def unit? (a b c d : Char) : Option Nat := do
  return (((← hexDigit? a) * 16 + (← hexDigit? b)) * 16 + (← hexDigit? c)) * 16 + (← hexDigit? d)

def shortEscape? : Char → Option Char
  | '"' => some '"'
  | '\x5c' => some '\x5c'
  | '/' => some '/'
  | 'b' => some '\x08'
  | 'f' => some '\x0c'
  | 'n' => some '\n'
  | 'r' => some '\r'
  | 't' => some '\t'
  | _ => none

/-- The pieces up to the closing quote, and what follows it. -/
def scanString : List Char → Option (List Piece × List Char)
  | [] => none
  | '"' :: rest => some ([], rest)
  | '\x5c' :: 'u' :: a :: b :: c :: d :: rest => do
    let value ← unit? a b c d
    let (pieces, rest) ← scanString rest
    return (.unit value :: pieces, rest)
  | '\x5c' :: e :: rest => do
    let c ← shortEscape? e
    let (pieces, rest) ← scanString rest
    return (.char c :: pieces, rest)
  | c :: rest =>
    if c.toNat < 0x20 then none
    else do
      let (pieces, rest) ← scanString rest
      return (.char c :: pieces, rest)

/-- Puts units together: a high and a low surrogate make one character, and neither stands alone. -/
def decodePieces : List Piece → Option (List Char)
  | [] => some []
  | .char c :: rest => (decodePieces rest).map (c :: ·)
  | .unit high :: .unit low :: rest =>
    if 0xD800 ≤ high ∧ high < 0xDC00 then
      if 0xDC00 ≤ low ∧ low < 0xE000 then
        let value := 0x10000 + (high - 0xD800) * 0x400 + (low - 0xDC00)
        (decodePieces rest).map (Char.ofNat value :: ·)
      else none
    else if 0xDC00 ≤ high ∧ high < 0xE000 then none
    else (decodePieces (.unit low :: rest)).map (Char.ofNat high :: ·)
  | .unit value :: rest =>
    if 0xD800 ≤ value ∧ value < 0xE000 then none
    else (decodePieces rest).map (Char.ofNat value :: ·)

def isNumberChar (c : Char) : Bool :=
  c.isDigit || c == '-' || c == '+' || c == '.' || c == 'e' || c == 'E'

/-- Drops one digit or more. -/
def dropDigits? (cs : List Char) : Option (List Char) :=
  match cs with
  | c :: rest => if c.isDigit then some (rest.dropWhile Char.isDigit) else none
  | [] => none

def dropInteger? : List Char → Option (List Char)
  | '-' :: '0' :: rest => some rest
  | '-' :: rest => dropDigits? rest
  | '0' :: rest => some rest
  | rest => dropDigits? rest

def dropFraction? : List Char → Option (List Char)
  | '.' :: rest => dropDigits? rest
  | rest => some rest

def dropSign : List Char → List Char
  | '+' :: rest => rest
  | '-' :: rest => rest
  | rest => rest

def dropExponent? : List Char → Option (List Char)
  | 'e' :: rest => dropDigits? (dropSign rest)
  | 'E' :: rest => dropDigits? (dropSign rest)
  | rest => some rest

/-- No integer part but zero itself starts with a zero, and digits follow a point or an exponent. -/
def isNumber (cs : List Char) : Bool :=
  (dropInteger? cs >>= dropFraction? >>= dropExponent?) == some []

theorem length_of_scanString {cs : List Char} {pieces : List Piece} {rest : List Char}
    (h : scanString cs = some (pieces, rest)) : rest.length < cs.length := by
  fun_induction scanString cs generalizing pieces rest with
  | case1 => simp at h
  | case2 tail => simp_all
  | case3 a b c d tail ih =>
    simp only [bind, Option.bind_eq_some_iff] at h
    obtain ⟨_, _, ⟨ps, r⟩, hr, he⟩ := h
    have := ih hr
    simp_all
    omega
  | case4 e tail _ ih =>
    simp only [bind, Option.bind_eq_some_iff] at h
    obtain ⟨_, _, ⟨ps, r⟩, hr, he⟩ := h
    have := ih hr
    simp_all
    omega
  | case5 => simp at h
  | case6 c tail _ _ _ _ ih =>
    simp only [bind, Option.bind_eq_some_iff] at h
    obtain ⟨⟨ps, r⟩, hr, he⟩ := h
    have := ih hr
    simp_all
    omega

/-- The tokens of a text, with blanks, tabs and line ends between them dropped. -/
def tokens? (cs : List Char) : Option (List Token) :=
  match cs with
  | [] => some []
  | '\x7b' :: rest => (tokens? rest).map (.openBrace :: ·)
  | '\x7d' :: rest => (tokens? rest).map (.closeBrace :: ·)
  | '[' :: rest => (tokens? rest).map (.openBracket :: ·)
  | ']' :: rest => (tokens? rest).map (.closeBracket :: ·)
  | ',' :: rest => (tokens? rest).map (.comma :: ·)
  | ':' :: rest => (tokens? rest).map (.colon :: ·)
  | 'n' :: 'u' :: 'l' :: 'l' :: rest => (tokens? rest).map (.null :: ·)
  | 't' :: 'r' :: 'u' :: 'e' :: rest => (tokens? rest).map (.bool true :: ·)
  | 'f' :: 'a' :: 'l' :: 's' :: 'e' :: rest => (tokens? rest).map (.bool false :: ·)
  | '"' :: rest =>
    match h : scanString rest with
    | none => none
    | some (pieces, after) =>
      have := length_of_scanString h
      (tokens? after).map (.string ((decodePieces pieces).map String.ofList) :: ·)
  | c :: rest =>
    if c == ' ' || c == '\n' || c == '\t' || c == '\r' then tokens? rest
    else if isNumberChar c && isNumber (c :: rest.takeWhile isNumberChar) then
      have : (rest.dropWhile isNumberChar).length ≤ rest.length := (List.dropWhile_suffix _).length_le
      (tokens? (rest.dropWhile isNumberChar)).map (.number :: ·)
    else none
termination_by cs.length
decreasing_by all_goals simp_all; try omega

end StaticTyping.Json
