import Logbook.Json.Token

/-!
# Numbers of JSON

An integer of 64 bits is read exactly.  Any other number is read in two steps: as many of
its digits as have room in 64 bits make an integer, which is converted to a double, and that
double is multiplied by a power of ten or divided by one.  Both steps round, so the result
need not be the double that is nearest to the number, but may be a neighbour of it.
-/

namespace Logbook

namespace Json

/-! ## Powers of ten -/

/-- The exponent of the largest power of ten among the doubles. -/
def largestPower : Nat := 308

/-- The double nearest to a power of ten. -/
def tenTo (power : Nat) : Binary64 := Binary64.ofDecimal false 1 power

/-- A double divided by a power of ten, step by step where that is no double. -/
def divideByTenTo (number : Binary64) (power : Nat) : Binary64 :=
  if power ≤ largestPower then number / tenTo power
  else if number.units == 0 then number
  else divideByTenTo (number / tenTo largestPower) (power - largestPower)
termination_by power
decreasing_by
  simp only [largestPower] at *
  omega

/-- A positive double multiplied by a power of ten; infinite if that is too large. -/
def scale (number : Binary64) (power : Int) : Binary64 :=
  if power < 0 then divideByTenTo number power.natAbs
  else if power ≤ largestPower then number * tenTo power.natAbs
  else if number.units == 0 then number
  else .infinite false

/-! ## Numerals -/

/-- The number that digits make behind the digits of another one, as long as there is room
for it in 64 bits, and how many of the digits that takes. -/
def gather (number : Nat) : List Char → Nat × Nat
  | [] => (number, 0)
  | digit :: digits =>
      let longer := 10 * number + Decimal.digitValue digit
      if longer < UInt64.size then
        let (number, count) := gather longer digits
        (number, count + 1)
      else (number, 0)

/-- The double that a numeral is read as, unless it is too large for one.  Digits in front of
the point for which there is no room count as zeros, and those behind it are left out. -/
def Numeral.double? (numeral : Numeral) : Option Binary64 :=
  let (whole, inFront) := gather 0 numeral.whole
  let (digits, behind) := gather whole numeral.fraction
  let power := numeral.power.getD 0 + (numeral.whole.length - inFront : Nat) - behind
  let double := scale (.ofInt digits) power
  if double.isFinite then some (if numeral.negative then -double else double) else none

/-- The value of a number: exactly if it is an integer of 64 bits, a negative zero apart,
else a double. -/
def Numeral.value? (numeral : Numeral) : Option Json :=
  let magnitude := Decimal.ofDigits numeral.whole
  let number : Int := if numeral.negative then -(magnitude : Int) else magnitude
  let isInteger := numeral.power.isNone && numeral.fraction.isEmpty
  if isInteger && Integer.fits64 number && !(numeral.negative && magnitude == 0) then
    some (.integer number)
  else numeral.double?.map .float

end Json

end Logbook
