import Mel.Floating.Magnitude

/-!
# Shortest decimals

Many decimals read back as one and the same real: those between the midpoints to
its two neighbours, the midpoints themselves included when the significand is
even. The shortest decimal of a real is the one of them with the fewest digits
and, of two with equally many, the one nearer to the real; the larger one where
both are equally near.

All comparisons are between natural numbers. A magnitude is taken four times, so
that the midpoints are whole too: below a power of two the neighbour is only half
as far away.
-/

namespace Mel.Floating

/-- The number `digits * 10 ^ exponent`. -/
structure Decimal where
  digits : Nat
  exponent : Int
deriving DecidableEq, Repr

namespace Decimal

/-- Compares a decimal with a number of quarter units. -/
def compareQuarters (decimal : Decimal) (quarters : Nat) : Ordering :=
  compare (4 * one * (decimal.digits * Nat.pow 10 decimal.exponent.toNat))
    (quarters * Nat.pow 10 (-decimal.exponent).toNat)

/-- Does the decimal read back as the real with this magnitude? -/
def readsBack (units : Nat) (decimal : Decimal) : Bool :=
  let gap := 1 <<< gapExponent units
  let below := if significand units = 1 <<< 52 ∧ 0 < gapExponent units then gap else 2 * gap
  let included := significand units % 2 == 0
  let low := decimal.compareQuarters (4 * units - below)
  let high := decimal.compareQuarters (4 * units + 2 * gap)
  (low == .gt || (included && low == .eq)) && (high == .lt || (included && high == .eq))

/-- How many decimal digits a natural number has; zero has none. -/
def length (number : Nat) : Nat :=
  if number = 0 then 0 else (Nat.toDigits 10 number).length

/-- The least exponent of a power of ten above a positive magnitude. -/
def scale (units : Nat) : Int :=
  if one ≤ units then length (units / one) else 1 - (length ((one - 1) / units) : Int)

/-- The neighbour of a magnitude below or at it on the grid of the multiples of `10 ^ exponent`. -/
def floorOn (exponent : Int) (units : Nat) : Nat :=
  units * Nat.pow 10 (-exponent).toNat / (one * Nat.pow 10 exponent.toNat)

/-- The best decimal on one grid, if a neighbour of the magnitude on it reads back. -/
def onGrid? (units : Nat) (exponent : Int) : Option Decimal :=
  let low : Decimal := ⟨floorOn exponent units, exponent⟩
  let high : Decimal := ⟨low.digits + 1, exponent⟩
  match readsBack units low, readsBack units high with
  | true, true =>
      -- Twice the magnitude against the sum of both neighbours.
      let sum : Decimal := ⟨low.digits + high.digits, exponent⟩
      if sum.compareQuarters (8 * units) == .gt then some low else some high
  | true, false => some low
  | false, true => some high
  | false, false => none

def withoutTrailingZeros (decimal : Decimal) : Decimal :=
  if decimal.digits ≠ 0 ∧ decimal.digits % 10 = 0 then
    withoutTrailingZeros ⟨decimal.digits / 10, decimal.exponent + 1⟩
  else decimal
termination_by decimal.digits
decreasing_by omega

/-- The decimal that is exactly the magnitude. -/
def exact (units : Nat) : Decimal :=
  ⟨units * Nat.pow 5 1074, -1074⟩

/-- The shortest decimal of a positive magnitude; seventeen digits always suffice. -/
def shortest (units : Nat) : Decimal :=
  let grids := (List.range 17).map fun (dropped : Nat) => scale units - (dropped + 1 : Int)
  ((grids.findSome? (onGrid? units)).getD (exact units)).withoutTrailingZeros

end Decimal

end Mel.Floating
