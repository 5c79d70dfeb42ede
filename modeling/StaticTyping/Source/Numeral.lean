/-! Integer literals as they are written. -/

namespace StaticTyping.Numeral

/-- The value of a digit, lower case letters standing for ten and up. -/
def digit? (radix : Nat) (c : Char) : Option Nat :=
  let value :=
    if '0' ≤ c ∧ c ≤ '9' then some (c.toNat - '0'.toNat)
    else if 'a' ≤ c ∧ c ≤ 'z' then some (c.toNat - 'a'.toNat + 10)
    else none
  value.filter (· < radix)

def valueOfDigits? (radix : Nat) : List Char → Option Nat
  | [] => none
  | digits => digits.foldlM (fun value c => (digit? radix c).map (value * radix + ·)) 0

/-- One plus sign may stand before the digits. -/
def unsigned? (radix : Nat) : List Char → Option Nat
  | '+' :: digits => valueOfDigits? radix digits
  | digits => valueOfDigits? radix digits

/-- The radix that the first two characters announce, and the characters after them. -/
def radixOf : List Char → Nat × List Char
  | '0' :: 'x' :: rest => (16, rest)
  | '0' :: 'o' :: rest => (8, rest)
  | '0' :: 'b' :: rest => (2, rest)
  | digits => (10, digits)

/-- Underscores are no digits, and letters may be of either case. -/
def cleaned (text : String) : List Char :=
  (text.toList.filter (· != '_')).map Char.toLower

/-- The magnitude of an integer literal. There is none for a text that is no numeral, nor at or above
2 ^ 128, which no width reaches. -/
def magnitude? (text : String) : Option Nat :=
  let (radix, digits) := radixOf (cleaned text)
  (unsigned? radix digits).filter (· < Nat.pow 2 128)

end StaticTyping.Numeral
