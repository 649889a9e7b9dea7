import Logbook.Binary64.Basic

/-!
# The fewest digits that read back

Each finite double stands for an interval of real numbers, those that round to
it; the ends belong to the interval when the mantissa is even.  `shortest` looks
for the coarsest decimal grid with a point in that interval and takes the point
nearest to the double, in exact integer arithmetic.
-/

namespace Logbook

/-- The number `digits * 10 ^ power`. -/
structure Decimal where
  /-- The digits, read as a natural number. -/
  digits : Nat
  /-- The power of ten of the last digit. -/
  power : Int
  deriving DecidableEq, Repr

/-- Which of two equally near grid points is taken. -/
inductive Tie where
  /-- The larger one. -/
  | away
  /-- The one whose last digit is even. -/
  | even
  deriving DecidableEq

namespace Binary64

/-- The real numbers that round to one double, as a closed or open interval in
quarters of a unit. -/
structure RoundingInterval where
  /-- Four times the number of units of the double. -/
  center : Nat
  /-- The lower end. -/
  low : Nat
  /-- The upper end. -/
  high : Nat
  /-- Whether the ends belong to the interval. -/
  closed : Bool

/-- The interval of the magnitude `mantissa * 2 ^ exponent` units.  Below a power
of two the next double is half as far as above it, except among the numbers of
the least exponent. -/
def roundingInterval (mantissa exponent : Nat) : RoundingInterval :=
  let center := 4 * (mantissa <<< exponent)
  let gap := 2 <<< exponent
  { center
    low := center - if mantissa == leastNormal && exponent != 0 then gap / 2 else gap
    high := center + gap
    closed := mantissa % 2 == 0 }

/-- Whether the fraction `numerator / denominator` lies in the interval. -/
def RoundingInterval.contains (interval : RoundingInterval) (numerator denominator : Nat) : Bool :=
  if interval.closed then
    interval.low * denominator ≤ numerator && numerator ≤ interval.high * denominator
  else
    interval.low * denominator < numerator && numerator < interval.high * denominator

/-- The point of the grid of multiples of `10 ^ power` that lies in the interval
and is nearest to its center; `none` if no point of the grid does. -/
def RoundingInterval.gridPoint? (interval : RoundingInterval) (tie : Tie) (power : Int) :
    Option Nat :=
  -- a grid step is `step / scale` quarters of a unit
  let step := 4 * unitsPerOne * Nat.pow 10 power.toNat
  let scale := Nat.pow 10 (-power).toNat
  let below := interval.center * scale / step
  let above := below + 1
  let belowInside := interval.contains (below * step) scale
  let aboveInside := interval.contains (above * step) scale
  if belowInside && aboveInside then
    let toBelow := interval.center * scale - below * step
    let toAbove := above * step - interval.center * scale
    if toBelow < toAbove then some below
    else if toAbove < toBelow then some above
    else match tie with
      | .away => some above
      | .even => some (if below % 2 == 0 then below else above)
  else if belowInside then some below
  else if aboveInside then some above
  else none

/-- Whether a magnitude in units is below `10 ^ power`. -/
def belowPowerOfTen (magnitude : Nat) (power : Int) : Bool :=
  magnitude * Nat.pow 10 (-power).toNat < unitsPerOne * Nat.pow 10 power.toNat

/-- The least power of ten above a positive magnitude in units, found from its
bit length. -/
def powerAbove (magnitude : Nat) : Int :=
  let guess := ((magnitude.log2 : Int) - 1074) * 30103 / 100000
  if belowPowerOfTen magnitude (guess - 1) then guess - 1
  else if belowPowerOfTen magnitude guess then guess
  else if belowPowerOfTen magnitude (guess + 1) then guess + 1
  else guess + 2

/-- Takes zeros off the end of the digits. -/
def dropTrailingZeros : Nat → Decimal → Decimal
  | 0, decimal => decimal
  | fuel + 1, decimal =>
      if decimal.digits != 0 && decimal.digits % 10 == 0 then
        dropTrailingZeros fuel ⟨decimal.digits / 10, decimal.power + 1⟩
      else decimal

/-- The shortest decimal that reads back as the magnitude `mantissa * 2 ^ exponent`
units, and of those of that length the nearest; zero is its own shortest form.
Seventeen digits always suffice. -/
def shortest (tie : Tie) (mantissa exponent : Nat) : Decimal :=
  if mantissa == 0 then ⟨0, 0⟩
  else
    let interval := roundingInterval mantissa exponent
    let top := powerAbove (mantissa <<< exponent)
    let grid? (count : Nat) : Option Decimal :=
      (interval.gridPoint? tie (top - count)).map (⟨·, top - count⟩)
    dropTrailingZeros 17 (((List.range' 1 17).findSome? grid?).getD ⟨0, 0⟩)

end Binary64

end Logbook
