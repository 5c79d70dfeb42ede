import StaticTyping.Json.Token

/-! JSON values. The value of a number is not kept. -/

namespace StaticTyping

inductive Json where
  | null
  | bool (value : Bool)
  | number
  | string (value : Option String)
  | array (elements : List Json)
  | object (entries : List (Option String × Json))
  deriving Inhabited, Repr

namespace Json

/-- An array or object that has begun, with what it holds so far, the latest first. An object keeps
the key whose value is still to come. -/
inductive Pending where
  | array (done : List Json)
  | object (done : List (Option String × Json)) (key : Option String)

/-- What may come next. -/
inductive Expect where
  | value
  | elementOrClose
  | key (done : List (Option String × Json))
  | keyOrClose
  | colon (done : List (Option String × Json)) (key : Option String)
  | after (value : Json)

/-- Reads the start of a value: a value that is one token, or a bracket that opens. -/
def start? : Token → Option Expect
  | .null => some (.after .null)
  | .bool b => some (.after (.bool b))
  | .number => some (.after .number)
  | .string s => some (.after (.string s))
  | _ => none

/-- Goes through the tokens with a stack of what has begun. -/
def readTokens : List Pending → Expect → List Token → Option Json
  | [], .after v, [] => some v
  | _, _, [] => none
  | stack, .value, .openBracket :: rest => readTokens (.array [] :: stack) .elementOrClose rest
  | stack, .value, .openBrace :: rest => readTokens stack .keyOrClose rest
  | stack, .value, t :: rest =>
    match start? t with
    | some next => readTokens stack next rest
    | none => none
  | .array done :: stack, .elementOrClose, .closeBracket :: rest =>
    readTokens stack (.after (.array done.reverse)) rest
  | stack, .elementOrClose, .openBracket :: rest =>
    readTokens (.array [] :: stack) .elementOrClose rest
  | stack, .elementOrClose, .openBrace :: rest => readTokens stack .keyOrClose rest
  | stack, .elementOrClose, t :: rest =>
    match start? t with
    | some next => readTokens stack next rest
    | none => none
  | stack, .keyOrClose, .closeBrace :: rest => readTokens stack (.after (.object [])) rest
  | stack, .keyOrClose, .string key :: rest => readTokens stack (.colon [] key) rest
  | stack, .key done, .string key :: rest => readTokens stack (.colon done key) rest
  | stack, .colon done key, .colon :: rest => readTokens (.object done key :: stack) .value rest
  | .array done :: stack, .after v, .comma :: rest =>
    readTokens (.array (v :: done) :: stack) .value rest
  | .array done :: stack, .after v, .closeBracket :: rest =>
    readTokens stack (.after (.array (v :: done).reverse)) rest
  | .object done key :: stack, .after v, .comma :: rest =>
    readTokens stack (.key ((key, v) :: done)) rest
  | .object done key :: stack, .after v, .closeBrace :: rest =>
    readTokens stack (.after (.object ((key, v) :: done).reverse)) rest
  | _, _, _ => none

/-- The value of a JSON text, with nothing but blanks around it. -/
def parse? (text : String) : Option Json :=
  tokens? text.toList >>= readTokens [] .value

end Json

end StaticTyping
