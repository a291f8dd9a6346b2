import HdlInterface.Interface.Basic
import HdlInterface.Number.Integer

/-!
# Ports from the command line
-/

namespace HdlInterface

/-- The integer of 64 bits that a text denotes: digits after at most one sign. -/
def int64OfText? (text : String) : Option Int64 :=
  let (negative, digits) :=
    match text.toList with
    | '-' :: rest => (true, rest)
    | '+' :: rest => (false, rest)
    | rest => (false, rest)
  if digits = [] ∨ ¬digits.all Char.isDigit then
    none
  else
    let value : Int := Nat.ofDigitChars 10 digits 0
    int64? (if negative then -value else value)

/-- A default value: an integer if the text denotes one, and otherwise a name. -/
def Expr.ofValueText (text : String) : Expr :=
  match int64OfText? text with
  | some n => .int n
  | none => .id text

/-- The port of that direction, name, type mark and default value. -/
def Port.ofTexts (direction : Direction) (name type : String) (value : Option String) :
    Port Variable :=
  .of direction { name, type := .id type, value := value.map Expr.ofValueText }

end HdlInterface
