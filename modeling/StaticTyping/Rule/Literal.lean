import StaticTyping.Rule.Basic
import StaticTyping.Source.Numeral

/-! The types of literals. A hint may choose the width of a number. -/

namespace StaticTyping.Rule

/-- The first primitive that the hint offers and `accept` takes. -/
def offered? (accept : Primitive → Bool) : Ty → Option Primitive
  | .prim p => if accept p then some p else none
  | .union members => members.findSome? fun m => m.primitive?.filter accept
  | _ => none

def integerWidth (options : Options) (hint : Option Ty) : Primitive :=
  (hint.bind (offered? Primitive.isInteger)).getD options.defaultInteger

def floatWidth (options : Options) (hint : Option Ty) : Primitive :=
  (hint.bind (offered? Primitive.isFloat)).getD options.defaultFloat

def fitsWidth (width : Primitive) (digits : String) (negative : Bool) : Bool :=
  match Numeral.magnitude? digits with
  | some magnitude => width.fits magnitude negative
  | none => false

/-- An integer that does not fit its width is reported and has that width all the same. -/
def literalType (options : Options) (literal : Literal) (hint : Option Ty) (span : Span)
    (negative : Bool) : Rule Ty :=
  match literal with
  | .int digits => do
    let width := integerWidth options hint
    reportIf (!fitsWidth width digits negative) (.integerOutOfRange negative digits width) span
    return .prim width
  | .float => return .prim (floatWidth options hint)
  | .string _ => return .string
  | .bool _ => return .bool
  | .null => return .null

end StaticTyping.Rule
