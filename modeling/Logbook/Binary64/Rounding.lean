import Logbook.Binary64.Basic

/-!
# Rounding to the nearest double

All arithmetic goes one way: the exact result is a fraction of units, and
`ofUnits` rounds that fraction to the nearest double, a tie to the even mantissa.
Sums, products, quotients and square roots, integers and decimal numbers differ
only in the fraction that they hand over.

Where arithmetic on numbers has no value (`∞ - ∞`, `0 * ∞`, `0 / 0`, the root of
a negative number) the answer is a negative not-a-number; a not-a-number among
the operands is passed on, the left one first.
-/

namespace Logbook

namespace Binary64

/-- The integer nearest to `numerator / denominator`, a tie to the even one. -/
def nearest (numerator denominator : Nat) : Nat :=
  let quotient := numerator / denominator
  let twice := 2 * (numerator % denominator)
  if twice < denominator || (twice == denominator && quotient % 2 == 0) then quotient
  else quotient + 1

/-- The double of the given parts, infinity if they are too large for one. -/
def ofParts (negative : Bool) (mantissa exponent : Nat) : Binary64 :=
  if canonical : Canonical mantissa exponent then .finite negative mantissa exponent canonical
  else .infinite negative

/-- The double nearest to `± numerator / denominator` units. -/
def ofUnits (negative : Bool) (numerator denominator : Nat) : Binary64 :=
  let exponent := (numerator / denominator).log2 - 52
  let mantissa := nearest numerator (denominator <<< exponent)
  if mantissa == mantissaBound then ofParts negative leastNormal (exponent + 1)
  else ofParts negative mantissa exponent

@[simp] theorem isNaN_ofParts (negative : Bool) (mantissa exponent : Nat) :
    (ofParts negative mantissa exponent).isNaN = false := by
  unfold ofParts
  split <;> rfl

@[simp] theorem isNaN_ofUnits (negative : Bool) (numerator denominator : Nat) :
    (ofUnits negative numerator denominator).isNaN = false := by
  unfold ofUnits
  dsimp only
  split <;> exact isNaN_ofParts _ _ _

/-- The double nearest to an integer. -/
def ofInt (integer : Int) : Binary64 :=
  ofUnits (decide (integer < 0)) (integer.natAbs * unitsPerOne) 1

@[simp] theorem isNaN_ofInt (integer : Int) : (ofInt integer).isNaN = false :=
  isNaN_ofUnits _ _ _

/-- The double nearest to `± digits * 10 ^ power`.  Powers beyond the range of
doubles are settled by the number of digits. -/
def ofDecimal (negative : Bool) (digits : Nat) (power : Int) : Binary64 :=
  let size : Int := power + (Nat.toDigits 10 digits).length
  if digits == 0 || size < -340 then zero negative
  else if 340 < size then .infinite negative
  else ofUnits negative (digits * unitsPerOne * Nat.pow 10 power.toNat)
    (Nat.pow 10 (-power).toNat)

/-- The sum of two doubles. -/
def add : Binary64 → Binary64 → Binary64
  | nan negative, _ => nan negative
  | _, nan negative => nan negative
  | infinite left, infinite right => if left == right then infinite left else nan true
  | infinite negative, _ => infinite negative
  | _, infinite negative => infinite negative
  | left@(finite leftNegative ..), right@(finite rightNegative ..) =>
      let total := left.units + right.units
      if total == 0 then zero (leftNegative && rightNegative)
      else ofUnits (decide (total < 0)) total.natAbs 1

/-- The difference of two doubles. -/
def sub : Binary64 → Binary64 → Binary64
  | nan negative, _ => nan negative
  | _, nan negative => nan negative
  | left, right => left.add right.neg

/-- The product of two doubles. -/
def mul : Binary64 → Binary64 → Binary64
  | nan negative, _ => nan negative
  | _, nan negative => nan negative
  | infinite left, infinite right => infinite (left != right)
  | infinite left, right =>
      if right.units == 0 then nan true else infinite (left != right.isNegative)
  | left, infinite right =>
      if left.units == 0 then nan true else infinite (left.isNegative != right)
  | left, right =>
      ofUnits (left.isNegative != right.isNegative) (left.units.natAbs * right.units.natAbs)
        unitsPerOne

/-- The quotient of two doubles. -/
def div : Binary64 → Binary64 → Binary64
  | nan negative, _ => nan negative
  | _, nan negative => nan negative
  | infinite _, infinite _ => nan true
  | infinite left, right => infinite (left != right.isNegative)
  | left, infinite right => zero (left.isNegative != right)
  | left, right =>
      let negative := left.isNegative != right.isNegative
      if right.units == 0 then (if left.units == 0 then nan true else infinite negative)
      else ofUnits negative (left.units.natAbs * unitsPerOne) right.units.natAbs

/-- The integer part of the square root, by Newton's method from above. -/
def squareRootFrom (square guess : Nat) : Nat :=
  let next := (guess + square / guess) / 2
  if next < guess then squareRootFrom square next else guess
termination_by guess

/-- The integer part of the square root. -/
def squareRoot (square : Nat) : Nat :=
  if square == 0 then 0 else squareRootFrom square (1 <<< (square.log2 / 2 + 1))

/-- The square root of a double.  The integer root of the units has far more
bits than a mantissa, so a last bit for "more remains" rounds it correctly. -/
def sqrt : Binary64 → Binary64
  | nan negative => nan negative
  | infinite negative => if negative then nan true else infinite false
  | number@(finite negative ..) =>
      if number.units == 0 then zero negative
      else if negative then nan true
      else
        let square := number.units.natAbs * unitsPerOne
        let root := squareRoot square
        ofUnits false (2 * root + if root * root == square then 0 else 1) 2

/-- The larger of two doubles; not-a-number gives way to a number. -/
def max (left right : Binary64) : Binary64 :=
  if left.isNaN then right
  else if left.compare? right == some .lt then right
  else left

instance : Add Binary64 := ⟨add⟩
instance : Sub Binary64 := ⟨sub⟩
instance : Mul Binary64 := ⟨mul⟩
instance : Div Binary64 := ⟨div⟩
instance : Neg Binary64 := ⟨neg⟩

instance (n : Nat) : OfNat Binary64 n := ⟨ofInt n⟩

/-- The sum of numbers, added from left to right. -/
def sum (numbers : List Binary64) : Binary64 :=
  numbers.foldl (· + ·) 0

end Binary64

end Logbook
