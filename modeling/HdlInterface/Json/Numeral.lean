import HdlInterface.Number.Shortest
import HdlInterface.Json.Basic

/-!
# Numerals

The text of numbers. Without a point and an exponent a numeral is an integer as long as 64 bits
hold it; every other numeral is a double.
-/

namespace HdlInterface

/-! ## Writing -/

/-- The decimal digits of an integer, after a minus sign if it is negative. -/
def writeInt (n : Int) : List Char :=
  if n < 0 then '-' :: Nat.toDigits 10 n.natAbs else Nat.toDigits 10 n.natAbs

/-- The decimal exponents that are written positionally; all others are written in scientific
form. -/
structure DoubleFormat where
  leastPositional : Int
  greatestPositional : Int

/-- JSON documents show `0.00001` and `1000000000000000.0` in full, but `1e-6` and `1e+16`. -/
def DoubleFormat.json : DoubleFormat := ⟨-5, 15⟩

namespace DoubleFormat

/-- Digits with the point after place `e` of the first digit; one digit at least follows it. -/
def positional (digits : List Char) (e : Int) : List Char :=
  if e < 0 then
    '0' :: '.' :: List.replicate (-e - 1).toNat '0' ++ digits
  else
    let whole := e.toNat + 1
    if digits.length ≤ whole then
      digits ++ List.replicate (whole - digits.length) '0' ++ ['.', '0']
    else
      digits.take whole ++ '.' :: digits.drop whole

/-- One digit before the point and a signed exponent. -/
def scientific (digits : List Char) (e : Int) : List Char :=
  let fraction := digits.drop 1
  digits.take 1 ++ (if fraction = [] then [] else '.' :: fraction) ++
    'e' :: (if e < 0 then '-' else '+') :: Nat.toDigits 10 e.natAbs

def writeMagnitude (format : DoubleFormat) (x : Magnitude) : List Char :=
  if x.significand = 0 then
    ['0', '.', '0']
  else
    let d := x.shortest
    let digits := Nat.toDigits 10 d.digits
    let e : Int := d.exponent + digits.length - 1
    if format.leastPositional ≤ e ∧ e ≤ format.greatestPositional then
      positional digits e
    else
      scientific digits e

def write (format : DoubleFormat) (x : Binary64) : List Char :=
  if x.negative then '-' :: format.writeMagnitude x.magnitude else format.writeMagnitude x.magnitude

end DoubleFormat

def Number.write : Number → List Char
  | integer n => writeInt n.value
  | double x => DoubleFormat.json.write x

/-! ## Reading -/

/-- The parts of a numeral. -/
structure Numeral where
  negative : Bool
  whole : List Char
  fraction : List Char
  exponent : Int
  /-- neither a point nor an exponent was written -/
  plain : Bool

/-- The digits in front, and what follows them. -/
def spanDigits (s : List Char) : List Char × List Char :=
  (s.takeWhile Char.isDigit, s.dropWhile Char.isDigit)

namespace Numeral

/-- The digits after the point, if there is a point. -/
def readFraction : List Char → Option (List Char × List Char)
  | '.' :: rest =>
      let (digits, rest) := spanDigits rest
      if digits = [] then none else some (digits, rest)
  | rest => some ([], rest)

/-- The exponent, if there is one. -/
def readExponent : List Char → Option (Option Int × List Char)
  | [] => some (none, [])
  | c :: rest =>
      if c = 'e' ∨ c = 'E' then
        let (negative, rest) :=
          match rest with
          | '-' :: rest => (true, rest)
          | '+' :: rest => (false, rest)
          | rest => (false, rest)
        let (digits, rest) := spanDigits rest
        if digits = [] then
          none
        else
          let e : Int := Nat.ofDigitChars 10 digits 0
          some (some (if negative then -e else e), rest)
      else
        some (none, c :: rest)

/-- A numeral in front of a text: no leading zero, and digits on both sides of a point. -/
def read (s : List Char) : Option (Numeral × List Char) := do
  let (negative, s) :=
    match s with
    | '-' :: rest => (true, rest)
    | s => (false, s)
  let (whole, s) := spanDigits s
  if whole = [] ∨ (whole.head? = some '0' ∧ whole.length ≠ 1) then
    none
  else
    let (fraction, s) ← readFraction s
    let (exponent, s) ← readExponent s
    some (⟨negative, whole, fraction, exponent.getD 0, fraction = [] && exponent.isNone⟩, s)

/-- Appends digits to a significand as long as 64 bits hold it: the significand, and the digits
that found no room. -/
def fill (significand : Nat) : List Char → Nat × List Char
  | [] => (significand, [])
  | d :: ds =>
      let next := Nat.ofDigitChars 10 [d] significand
      if next < UInt64.size then fill next ds else (significand, d :: ds)

/-- The numeral as a double. Digits beyond those that 64 bits hold count by their place only. -/
def double? (n : Numeral) : Option Binary64 := do
  let (significand, dropped) := fill 0 n.whole
  let (significand, ignored) := fill significand n.fraction
  let places : Int := (dropped.length : Int) - ((n.fraction.length : Int) - ignored.length)
  let magnitude ← Magnitude.ofDecimal? significand (places + n.exponent)
  some ⟨n.negative, magnitude⟩

/-- No finite double is nearest to the numeral, whatever its sign. -/
def isBeyond (n : Numeral) : Bool :=
  Magnitude.isBeyond (Nat.ofDigitChars 10 (n.whole ++ n.fraction) 0)
    (n.exponent - n.fraction.length)

/-- The number a numeral stands for; none if it is too large for a double. Negative zero is a
double. -/
def number? (n : Numeral) : Option Number :=
  let value : Int := Nat.ofDigitChars 10 n.whole 0
  let signed := if n.negative then -value else value
  if n.plain ∧ ¬(n.negative ∧ value = 0) then
    match Integer.ofInt? signed with
    | some i => some (.integer i)
    | none => n.double?.map .double
  else
    n.double?.map .double

end Numeral

/-- A number in front of a text, and what follows it. -/
def Number.read (s : List Char) : Option (Number × List Char) := do
  let (n, rest) ← Numeral.read s
  let number ← n.number?
  some (number, rest)

end HdlInterface
