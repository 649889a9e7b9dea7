import Logbook.Proofs.Binary64.Exact
import Logbook.Proofs.Json.Pretty

/-!
# Numbers of few digits

Reading a number of JSON rounds twice, but not if its digits have at most 53 bits and it is scaled
by a power of ten that is a double: then only the last step rounds, and the result is the nearest
double (`Json.Numeral.double?_of_few`).  So a double whose digits are as few is read from its text
as itself (`Json.readBack?_of_few`).

## Strategy

All arithmetic rounds a fraction of units, which does not change if it is expanded
(`Binary64.ofUnits_mul_right`).  The integer of the digits and the power of ten are exact, so their
product or quotient is the fraction that the number is, expanded.
-/

namespace Logbook

namespace Binary64

/-! ## Fractions of units -/

theorem nearest_mul_right {factor : Nat} (hpos : 0 < factor) (numerator denominator : Nat) :
    nearest (numerator * factor) (denominator * factor) = nearest numerator denominator := by
  have hless : 2 * (numerator % denominator * factor) < denominator * factor ↔
      2 * (numerator % denominator) < denominator := by
    rw [← Nat.mul_assoc, Nat.mul_lt_mul_right hpos]
  have hsame : 2 * (numerator % denominator * factor) = denominator * factor ↔
      2 * (numerator % denominator) = denominator := by
    rw [← Nat.mul_assoc, Nat.mul_left_inj hpos.ne']
  unfold nearest
  simp only [Nat.mul_div_mul_right _ _ hpos, Nat.mul_mod_mul_right, hless, hsame, Bool.or_eq_true,
    Bool.and_eq_true, beq_iff_eq, decide_eq_true_eq]

/-- Expanding a fraction does not change what it is rounded to. -/
theorem ofUnits_mul_right {factor : Nat} (hpos : 0 < factor) (negative : Bool)
    (numerator denominator : Nat) :
    ofUnits negative (numerator * factor) (denominator * factor) =
      ofUnits negative numerator denominator := by
  have hshift (count : Nat) :
      (denominator * factor) <<< count = denominator <<< count * factor := by
    rw [Nat.shiftLeft_eq, Nat.shiftLeft_eq, Nat.mul_right_comm]
  unfold ofUnits
  simp only [Nat.mul_div_mul_right _ _ hpos, hshift, nearest_mul_right hpos]

theorem isNegative_ofUnits (negative : Bool) (numerator denominator : Nat) :
    (ofUnits negative numerator denominator).isNegative = negative := by
  have hparts (mantissa exponent : Nat) :
      (ofParts negative mantissa exponent).isNegative = negative := by
    unfold ofParts
    split <;> rfl
  unfold ofUnits
  dsimp only
  split <;> exact hparts _ _

theorem neg_ofUnits (numerator denominator : Nat) :
    -ofUnits false numerator denominator = ofUnits true numerator denominator := by
  have hparts (mantissa exponent : Nat) :
      -ofParts false mantissa exponent = ofParts true mantissa exponent := by
    unfold ofParts
    split <;> rfl
  unfold ofUnits
  dsimp only
  split <;> exact hparts _ _

theorem neg_ofDecimal (digits : Nat) (power : Int) :
    -ofDecimal false digits power = ofDecimal true digits power := by
  unfold ofDecimal
  dsimp only
  split
  · rfl
  · split
    · rfl
    · exact neg_ofUnits _ _

theorem ofUnits_zero (denominator : Nat) : ofUnits false 0 denominator = zero false := by
  have hnearest (denominator : Nat) : nearest 0 denominator = 0 := by
    rcases Nat.eq_zero_or_pos denominator with rfl | hpos
    · rfl
    · simp [nearest, hpos]
  unfold ofUnits
  simp only [Nat.zero_div, Nat.log2_zero, Nat.zero_sub, hnearest]
  rfl

/-- A number whose digits and power are not out of all range is rounded as the fraction it is. -/
theorem ofDecimal_of_small {digits : Nat} {power : Int} (hdigits : digits < mantissaBound)
    (hpower : power.natAbs ≤ 22) :
    ofDecimal false digits power =
      ofUnits false (digits * unitsPerOne * 10 ^ power.toNat) (10 ^ (-power).toNat) := by
  rcases Nat.eq_zero_or_pos digits with rfl | hpos
  · rw [Nat.zero_mul, Nat.zero_mul]
    exact (ofUnits_zero _).symm
  · have hlength : (Nat.toDigits 10 digits).length ≤ 16 := by
      rw [Nat.length_toDigits_le_iff (by decide) (by decide)]
      exact hdigits.trans (by decide)
    unfold ofDecimal
    dsimp only
    rw [if_neg (by simp; omega), if_neg (by omega)]
    rfl

theorem mul_of_isFinite {left right : Binary64} (hleft : left.isFinite = true)
    (hright : right.isFinite = true) :
    left * right = ofUnits (left.isNegative != right.isNegative)
      (left.units.natAbs * right.units.natAbs) unitsPerOne := by
  cases left with
  | finite =>
    cases right with
    | finite => rfl
    | _ => cases hright
  | _ => cases hleft

theorem div_of_isFinite {left right : Binary64} (hleft : left.isFinite = true)
    (hright : right.isFinite = true) (hne : right.units ≠ 0) :
    left / right = ofUnits (left.isNegative != right.isNegative)
      (left.units.natAbs * unitsPerOne) right.units.natAbs := by
  cases left with
  | finite =>
    cases right with
    | finite =>
      exact if_neg (by simpa using hne)
    | _ => cases hright
  | _ => cases hleft

end Binary64

namespace Json

open Binary64 Decimal

/-! ## Scaling -/

/-- The powers of ten up to this one are doubles. -/
def exactPower : Nat := 22

theorem tenTo_of_le : ∀ power ≤ exactPower, (tenTo power).isFinite = true ∧
    (tenTo power).isNegative = false ∧ (tenTo power).units = 10 ^ power * unitsPerOne := by
  decide +kernel

theorem ofInt_digits {digits : Nat} (h : digits < mantissaBound) :
    (ofInt digits).isFinite = true ∧ (ofInt digits).isNegative = false ∧
      (ofInt digits).units.natAbs = digits * unitsPerOne := by
  obtain ⟨hfinite, hunits⟩ := ofInt_of_lt (show (digits : Int).natAbs < mantissaBound by simpa using h)
  refine ⟨hfinite, ?_, ?_⟩
  · rw [ofInt, isNegative_ofUnits, decide_eq_false_iff_not, Int.not_lt]
    exact Int.natCast_nonneg digits
  · rw [hunits, ← Nat.cast_mul, Int.natAbs_natCast]

/-- A number of few digits is scaled to the double nearest to the result. -/
theorem scale_of_small {digits : Nat} {power : Int} (hdigits : digits < mantissaBound)
    (hpower : power.natAbs ≤ exactPower) :
    scale (ofInt digits) power = ofDecimal false digits power := by
  obtain ⟨hfinite, hsign, hunits⟩ := ofInt_digits hdigits
  obtain ⟨htenFinite, htenSign, htenUnits⟩ := tenTo_of_le power.natAbs hpower
  have htenAbs : (tenTo power.natAbs).units.natAbs = 10 ^ power.natAbs * unitsPerOne := by
    rw [htenUnits, ← Nat.cast_ofNat, ← Nat.cast_pow, ← Nat.cast_mul, Int.natAbs_natCast]
  have hlargest : power.natAbs ≤ largestPower := hpower.trans (by decide)
  have hpositive : 0 < 10 ^ power.natAbs * unitsPerOne :=
    Nat.mul_pos (Nat.pow_pos (by decide)) (by decide +kernel)
  rw [ofDecimal_of_small hdigits hpower]
  unfold scale
  split
  · next hnegative =>
    have hfront : power.toNat = 0 := by omega
    have hbehind : (-power).toNat = power.natAbs := by omega
    rw [divideByTenTo, if_pos hlargest, div_of_isFinite hfinite htenFinite, hsign, htenSign, hunits,
      htenAbs, hfront, hbehind, Nat.pow_zero, Nat.mul_one]
    · exact ofUnits_mul_right (by decide +kernel) _ _ _
    · rw [← Int.natAbs_ne_zero, htenAbs]
      exact hpositive.ne'
  · next hnonneg =>
    have hfront : power.toNat = power.natAbs := by omega
    have hbehind : (-power).toNat = 0 := by omega
    rw [if_pos (by omega), mul_of_isFinite hfinite htenFinite, hsign, htenSign, hunits, htenAbs,
      hfront, hbehind, Nat.pow_zero, ← Nat.mul_assoc]
    have hexpand := ofUnits_mul_right (by decide +kernel : 0 < unitsPerOne) false
      (digits * unitsPerOne * 10 ^ power.natAbs) 1
    rwa [Nat.one_mul] at hexpand

/-! ## Gathering digits -/

/-- The number that digits spell behind those of another one. -/
def spellBehind (number : Nat) (digits : List Char) : Nat :=
  digits.foldl (fun number digit => 10 * number + digitValue digit) number

theorem le_spellBehind (digits : List Char) (number : Nat) :
    number ≤ spellBehind number digits := by
  induction digits generalizing number with
  | nil => exact Nat.le_refl number
  | cons digit digits ih =>
    calc number ≤ 10 * number + digitValue digit := by omega
      _ ≤ spellBehind number (digit :: digits) := ih _

/-- Digits for which there is room are all taken. -/
theorem gather_of_lt {digits : List Char} {number : Nat}
    (h : spellBehind number digits < UInt64.size) :
    gather number digits = (spellBehind number digits, digits.length) := by
  induction digits generalizing number with
  | nil => rfl
  | cons digit digits ih =>
    have hlonger : 10 * number + digitValue digit < UInt64.size :=
      Nat.lt_of_le_of_lt (le_spellBehind digits _) h
    rw [gather]
    dsimp only
    rw [if_pos hlonger, ih h]
    rfl

namespace Numeral

/-- The decimal that a numeral spells. -/
def decimal (numeral : Numeral) : Decimal :=
  ⟨ofDigits (numeral.whole ++ numeral.fraction),
    numeral.power.getD 0 - numeral.fraction.length⟩

theorem decimal_power (numeral : Numeral) :
    numeral.decimal.power = numeral.power.getD 0 - numeral.fraction.length := rfl

/-- The digits have at most 53 bits, and the power of ten is a double. -/
structure Few (numeral : Numeral) : Prop where
  digits : numeral.decimal.digits < mantissaBound
  power : numeral.decimal.power.natAbs ≤ exactPower

variable {numeral : Numeral}

/-- **A numeral of few digits is read as the double nearest to it**, if that is finite. -/
theorem double?_of_few (h : numeral.Few) :
    numeral.double? = if (numeral.decimal.toBinary64 false).isFinite then
      some (numeral.decimal.toBinary64 numeral.negative) else none := by
  have hdigits : spellBehind (spellBehind 0 numeral.whole) numeral.fraction =
      numeral.decimal.digits := List.foldl_append.symm
  have hroom : spellBehind (spellBehind 0 numeral.whole) numeral.fraction < UInt64.size := by
    rw [hdigits]
    exact h.digits.trans (by decide)
  have hwhole := gather_of_lt (Nat.lt_of_le_of_lt (le_spellBehind numeral.fraction _) hroom)
  unfold double?
  simp only [hwhole, gather_of_lt hroom, hdigits]
  rw [Nat.sub_self, Nat.cast_zero, Int.add_zero, ← decimal_power, scale_of_small h.digits h.power,
    toBinary64, toBinary64]
  cases numeral.negative with
  | false => rw [if_neg Bool.false_ne_true]
  | true => rw [if_pos rfl, neg_ofDecimal]

end Numeral

/-- **A double with few digits is read from its text as itself.** -/
theorem readBack?_of_few {number : Binary64} (hfinite : number.isFinite = true)
    (h : (numeralOfDouble number).Few) : readBack? number = some number := by
  cases number with
  | nan => cases hfinite
  | infinite => cases hfinite
  | finite negative mantissa exponent hcanonical =>
    obtain ⟨-, -, hspelled⟩ := numeral?_decimal negative (shortest_zero .even hcanonical) stops_nil
    have hdouble (sign : Bool) :
        (numeralOfDouble (.finite negative mantissa exponent hcanonical)).decimal.toBinary64 sign =
          .finite sign mantissa exponent hcanonical :=
      toBinary64_of_spelled sign hcanonical hspelled
    have hsign : (numeralOfDouble (.finite negative mantissa exponent hcanonical)).negative =
        negative := by
      unfold numeralOfDouble numeralOfDecimal
      dsimp only
      split <;> rfl
    rw [readBack?, Numeral.double?_of_few h, hdouble, hsign, hdouble]
    rfl

/-- A double with seventeen digits in its text is read as the next one. -/
example : readBack? (Decimal.toBinary64 false ⟨31245270191439438, -15⟩) =
    some (Decimal.toBinary64 false ⟨3124527019143944, -14⟩) := by
  decide +kernel

end Json

end Logbook
