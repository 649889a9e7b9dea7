import Logbook.Integer

/-!
# Double-precision numbers

A double is not-a-number, an infinity, or a finite number.  Every finite double
is an integer multiple of the least positive one,

```text
unit = 2 ^ -1074
```

so a finite double is kept as `± mantissa * 2 ^ exponent` units in the one form
in which the mantissa has 53 bits, or fewer with exponent zero.  Numbers are then
compared as exact integers, with no rounding anywhere.

Unlike the numbers of the core library, not-a-number has a sign here: the total
order of values puts a negative one below and a positive one above all numbers.
-/

namespace Logbook

namespace Binary64

/-- The largest exponent of a finite double, counted in units. -/
def maxExponent : Nat := 2045

/-- The least number of 53 bits, `2 ^ 52`. -/
def leastNormal : Nat := 0x10000000000000

/-- The least number of more than 53 bits, `2 ^ 53`. -/
def mantissaBound : Nat := 0x20000000000000

/-- A mantissa and an exponent in the form that each finite double has once. -/
def Canonical (mantissa exponent : Nat) : Prop :=
  mantissa < mantissaBound ∧ exponent ≤ maxExponent ∧ (leastNormal ≤ mantissa ∨ exponent = 0)

instance (mantissa exponent : Nat) : Decidable (Canonical mantissa exponent) := by
  unfold Canonical; infer_instance

theorem canonical_zero : Canonical 0 0 := by decide

end Binary64

/-- A double-precision number; zeros, infinities and not-a-number are signed. -/
inductive Binary64 where
  /-- Not a number. -/
  | nan (negative : Bool)
  /-- An infinity. -/
  | infinite (negative : Bool)
  /-- The number `± mantissa * 2 ^ exponent` units. -/
  | finite (negative : Bool) (mantissa exponent : Nat)
      (canonical : Binary64.Canonical mantissa exponent)
  deriving DecidableEq

namespace Binary64

/-- How many units make the number one. -/
def unitsPerOne : Nat := 1 <<< 1074

theorem unitsPerOne_pos : 0 < (unitsPerOne : Int) := by
  unfold unitsPerOne
  rw [Nat.one_shiftLeft]
  exact_mod_cast Nat.two_pow_pos 1074

/-- A zero of the given sign. -/
def zero (negative : Bool) : Binary64 := .finite negative 0 0 canonical_zero

instance : Inhabited Binary64 := ⟨zero false⟩

/-- Whether the number carries a minus sign. -/
def isNegative : Binary64 → Bool
  | nan negative => negative
  | infinite negative => negative
  | finite negative _ _ _ => negative

/-- Whether this is not a number. -/
def isNaN : Binary64 → Bool
  | nan _ => true
  | _ => false

/-- Whether this is neither an infinity nor not-a-number. -/
def isFinite : Binary64 → Bool
  | finite .. => true
  | _ => false

theorem isNaN_of_isFinite {number : Binary64} (h : number.isFinite = true) :
    number.isNaN = false := by
  cases number with
  | finite => rfl
  | _ => cases h

/-- The same number with the other sign. -/
def neg : Binary64 → Binary64
  | nan negative => nan !negative
  | infinite negative => infinite !negative
  | finite negative mantissa exponent canonical => finite (!negative) mantissa exponent canonical

/-- A magnitude with a sign, as an integer. -/
def signed (negative : Bool) (magnitude : Nat) : Int :=
  if negative then -(magnitude : Int) else magnitude

/-- The exact number of units of a finite double; zero for the others. -/
def units : Binary64 → Int
  | finite negative mantissa exponent _ => signed negative (mantissa <<< exponent)
  | _ => 0

/-- The class of a double in the total order: negative not-a-number, negative
infinity, finite numbers, positive infinity, positive not-a-number. -/
def rank : Binary64 → Int
  | nan true => -2
  | infinite true => -1
  | finite .. => 0
  | infinite false => 1
  | nan false => 2

/-- The bit of the sign in the word of a double. -/
def signBit (negative : Bool) : Nat := if negative then 0x8000000000000000 else 0

/-- The word of 64 bits that holds a double: the sign, eleven bits of exponent, and the
mantissa, of which a normal number leaves the leading bit out. -/
def bits : Binary64 → Nat
  | nan negative => signBit negative + 0x7ff8000000000000
  | infinite negative => signBit negative + 0x7ff0000000000000
  | finite negative mantissa exponent _ => signBit negative + exponent * leastNormal + mantissa

/-- The usual order of numbers; not-a-number is comparable with nothing. -/
def compare? (left right : Binary64) : Option Ordering :=
  if left.isNaN || right.isNaN then none
  else some ((compare left.rank right.rank).then (compare left.units right.units))

/-- Whether two doubles are the same number, any two not-a-numbers being the same. -/
def sameNumber (left right : Binary64) : Bool :=
  (left.isNaN && right.isNaN) || left.compare? right == some .eq

/-- The total order: by class, and within the finite numbers by size.  Doubles
that are the same number are equal whatever their signs. -/
def order (left right : Binary64) : Ordering :=
  if left.sameNumber right then .eq
  else (compare left.rank right.rank).then (compare left.units right.units)

/-- The integer part of a finite double, cut towards zero; zero for the others. -/
def truncate (number : Binary64) : Int :=
  number.units.tdiv unitsPerOne

/-- Whether a double is a finite number without a fraction. -/
def isIntegral (number : Binary64) : Bool :=
  number.isFinite && number.truncate * unitsPerOne == number.units

/-- Whether the integer part of a double is a 64-bit signed integer. -/
def fitsInt64 (number : Binary64) : Bool :=
  number.isFinite && (Integer.int64? number.truncate).isSome

/-- The order of a 64-bit integer and a double, without rounding the integer.
Outside the range of such integers the double decides alone; inside it the
integer parts are compared first and then the fraction of the double. -/
def compareInt (integer : Int64) : Binary64 → Ordering
  | nan negative => if negative then .gt else .lt
  | infinite negative => if negative then .gt else .lt
  | number@(finite ..) =>
      if Integer.int64Bound * unitsPerOne ≤ number.units then .lt
      else if number.units < -Integer.int64Bound * unitsPerOne then .gt
      else
        (compare integer.toInt number.truncate).then
          (compare (number.truncate * unitsPerOne) number.units)

end Binary64

end Logbook
