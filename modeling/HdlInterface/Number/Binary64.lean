/-!
# Binary64 values

Finite doubles as exact dyadic numbers `significand * 2 ^ exponent`, rounding of a quotient to the
nearest of them, and the products and quotients that rounding gives.
-/

namespace HdlInterface

/-! ## Rounding to naturals -/

/-- The natural nearest to `num / den`, of two equally near the even one. -/
def roundDiv (num den : Nat) : Nat :=
  let quotient := num / den
  let rest := num % den
  if 2 * rest < den ∨ (2 * rest = den ∧ quotient % 2 = 0) then quotient else quotient + 1

/-! ## Magnitudes -/

/-- The absolute value of a finite double, `significand * 2 ^ exponent`. -/
structure Magnitude where
  significand : Nat
  exponent : Int
deriving DecidableEq, Repr

namespace Magnitude

/-- The exponent of the least positive double. -/
def leastExponent : Int := -1074

/-- The exponent of the largest finite double. -/
def greatestExponent : Int := 971

/-- The least significand of 53 bits; only the doubles next to zero have a lesser one. -/
def leastFull : Nat := 0x10000000000000

def zero : Magnitude := ⟨0, leastExponent⟩

/-- The integer part of the binary logarithm of `num / den`. -/
def floorLog2 (num den : Nat) : Int :=
  let e : Int := (Nat.log2 num : Int) - Nat.log2 den
  if den * Nat.pow 2 e.toNat ≤ num * Nat.pow 2 (-e).toNat then e else e - 1

/-- The double nearest to `num / den`, a tie going to the even significand; `none` where that is
no longer finite. -/
def nearest? (num den : Nat) : Option Magnitude :=
  if num = 0 then
    some zero
  else
    let exponent := max (floorLog2 num den - 52) leastExponent
    let significand := roundDiv (num * Nat.pow 2 (-exponent).toNat) (den * Nat.pow 2 exponent.toNat)
    let rounded : Magnitude :=
      if significand = 2 * leastFull then ⟨leastFull, exponent + 1⟩ else ⟨significand, exponent⟩
    if greatestExponent < rounded.exponent then none else some rounded

/-- The rounded product. -/
def mul? (x y : Magnitude) : Option Magnitude :=
  let exponent := x.exponent + y.exponent
  nearest? (x.significand * y.significand * Nat.pow 2 exponent.toNat) (Nat.pow 2 (-exponent).toNat)

/-- The rounded quotient. -/
def div? (x y : Magnitude) : Option Magnitude :=
  let exponent := x.exponent - y.exponent
  nearest? (x.significand * Nat.pow 2 exponent.toNat) (y.significand * Nat.pow 2 (-exponent).toNat)

/-! ## Powers of ten -/

/-- The largest power of ten with a double of its own. -/
def greatestPower : Nat := 308

/-- The double nearest to `10 ^ k`, for `k` up to `greatestPower`. -/
def tenPow (k : Nat) : Magnitude :=
  (nearest? (Nat.pow 10 k) 1).getD zero

/-- `x / 10 ^ k`, divided by one rounded power after another; it fades to zero. -/
def divTenPow (x : Magnitude) (k : Nat) : Magnitude :=
  if k ≤ greatestPower then
    (x.div? (tenPow k)).getD zero
  else if x.significand = 0 then
    x
  else
    divTenPow ((x.div? (tenPow greatestPower)).getD zero) (k - greatestPower)
termination_by k
decreasing_by simp [greatestPower] at *; omega

/-- No finite double is nearest to `significand * 10 ^ exponent`. The greatest double has 309 digits
before the point, and only a number with as many needs its power worked out. -/
def isBeyond (significand : Nat) (exponent : Int) : Bool :=
  let whole : Int := (Nat.toDigits 10 significand).length + exponent
  if significand = 0 ∨ whole < 309 then false
  else if 309 < whole then true
  else (nearest? (significand * Nat.pow 10 exponent.toNat) (Nat.pow 10 (-exponent).toNat)).isNone

/-- `significand * 10 ^ exponent` worked out in doubles: the significand is rounded first, and then
its product with, or quotient by, a rounded power of ten. `none` if that is too large. -/
def ofDecimal? (significand : Nat) (exponent : Int) : Option Magnitude := do
  let x ← nearest? significand 1
  if 0 ≤ exponent then
    if exponent.toNat ≤ greatestPower then
      x.mul? (tenPow exponent.toNat)
    else if x.significand = 0 then
      some x
    else
      none
  else
    some (x.divTenPow (-exponent).toNat)

end Magnitude

/-! ## Signed values -/

/-- A finite double; zero has a sign. -/
structure Binary64 where
  negative : Bool
  magnitude : Magnitude
deriving DecidableEq, Repr

namespace Binary64

/-- Equality of values: the two zeros are equal. -/
def same (x y : Binary64) : Bool :=
  x == y || (x.magnitude.significand == 0 && y.magnitude.significand == 0)

theorem same_refl (x : Binary64) : x.same x = true := by
  simp [same]

end Binary64

end HdlInterface
