import HdlInterface.Number.Binary64

/-!
# Shortest decimals

The decimal with the fewest digits among those that round to a given double, and of these the one
nearest to it.
-/

namespace HdlInterface

/-- The number `digits * 10 ^ exponent`. -/
structure Decimal where
  digits : Nat
  exponent : Int
deriving DecidableEq, Repr

namespace Magnitude

/-! ## The interval that rounds to a double -/

/-- How `a * 10 ^ i` compares with `n * 2 ^ j`. -/
def compareScaled (a : Nat) (i : Int) (n : Nat) (j : Int) : Ordering :=
  compare (a * Nat.pow 10 i.toNat * Nat.pow 2 (-j).toNat)
    (n * Nat.pow 2 j.toNat * Nat.pow 10 (-i).toNat)

/-- The double below lies half as far away as the double above. -/
def narrowBelow (x : Magnitude) : Bool :=
  x.significand == leastFull && x.exponent != leastExponent

/-- The decimal lies among the reals that round to `x`; the two ends do if the significand is
even. -/
def readsBack (x : Magnitude) (d : Decimal) : Bool :=
  let low := if x.narrowBelow then 4 * x.significand - 1 else 4 * x.significand - 2
  let high := 4 * x.significand + 2
  let closed := x.significand % 2 == 0
  let atLow := compareScaled d.digits d.exponent low (x.exponent - 2)
  let atHigh := compareScaled d.digits d.exponent high (x.exponent - 2)
  (atLow == .gt || (closed && atLow == .eq)) && (atHigh == .lt || (closed && atHigh == .eq))

/-! ## The search -/

/-- The largest multiple of `10 ^ k` not above `x`, counted in that unit. -/
def floorOn (x : Magnitude) (k : Int) : Nat :=
  (x.significand * Nat.pow 2 x.exponent.toNat * Nat.pow 10 (-k).toNat) /
    (Nat.pow 2 (-x.exponent).toNat * Nat.pow 10 k.toNat)

/-- The place of the first decimal digit of a positive `x`. -/
def leadingPlace (x : Magnitude) : Int :=
  ((Nat.toDigits 10 (x.floorOn (-350))).length : Int) - 351

/-- The neighbour of `x` on the grid of multiples of `10 ^ k` that rounds to `x`; of two the
nearer, and of two equally near the even one. -/
def onGrid? (x : Magnitude) (k : Int) : Option Decimal :=
  let below : Decimal := ⟨x.floorOn k, k⟩
  let above : Decimal := ⟨x.floorOn k + 1, k⟩
  match x.readsBack below, x.readsBack above with
  | false, false => none
  | true, false => some below
  | false, true => some above
  | true, true =>
    -- the midpoint of the two against `x`
    match compareScaled (2 * x.floorOn k + 1) k x.significand (x.exponent + 1) with
    | .lt => some above
    | .gt => some below
    | .eq => if x.floorOn k % 2 = 0 then some below else some above

/-- The decimal with the fewest digits that rounds to a positive `x`. The search goes from the power
of ten above `x` to finer grids; seventeen digits suffice. -/
def shortest (x : Magnitude) : Decimal :=
  ((List.range 18).findSome? fun (n : Nat) => x.onGrid? (x.leadingPlace + 1 - n)).getD
    ⟨x.floorOn (x.leadingPlace - 16), x.leadingPlace - 16⟩

end Magnitude

end HdlInterface
