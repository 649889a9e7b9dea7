import Mathlib.Algebra.Order.Field.Power
import Mathlib.Tactic.Linarith
import Mathlib.Tactic.Positivity
import Mathlib.Tactic.Ring
import Logbook.Binary64.Text

/-!
# Every number of an interval rounds to its double

A positive double stands for an interval of numbers, and whatever decimal lies in that
interval is read as the double.

## Strategy

The interval of `m * 2 ^ e` units has its ends half a gap away from it.  Above the least
mantissa of an exponent the numbers of the interval have the bit length of `m * 2 ^ e`, so
that rounding picks the exponent `e`, and then the nearest mantissa is `m`
(`nearest_eq`).  At the least mantissa the lower part of the interval is one bit shorter:
rounding picks the exponent `e - 1` there, the nearest mantissa is the bound `2 ^ 53`, and
the carry brings both back (`ofUnits_of_quarters`).

Comparisons of products of powers are made between rational numbers, where a decimal is
`digits * 10 ^ power` whatever the sign of the power is (`Decimal.value`).
-/

namespace Logbook

/-- The number that a decimal is. -/
def Decimal.value (number : Decimal) : ℚ := number.digits * 10 ^ number.power

namespace Binary64

/-! ## The interval -/

/-- Whether so many quarters of a unit lie in the interval. -/
def RoundingInterval.Holds (interval : RoundingInterval) (quarters : ℚ) : Prop :=
  ((interval.low : ℚ) ≤ quarters ∧ quarters ≤ interval.high) ∧
    (interval.closed = false → (interval.low : ℚ) < quarters ∧ quarters < interval.high)

theorem RoundingInterval.contains_iff (interval : RoundingInterval) (numerator : Nat)
    {denominator : Nat} (hpos : 0 < denominator) :
    interval.contains numerator denominator = true ↔
      interval.Holds (numerator / denominator) := by
  have hden : (0 : ℚ) < denominator := by exact_mod_cast hpos
  unfold contains Holds
  rw [le_div_iff₀ hden, div_le_iff₀ hden, lt_div_iff₀ hden, div_lt_iff₀ hden]
  norm_cast
  cases interval.closed <;> simp
  omega

/-- The distance from a double to the lower end of its interval, in quarters of a unit. -/
def lowerGap (mantissa exponent : Nat) : Nat :=
  if mantissa = leastNormal ∧ exponent ≠ 0 then 2 ^ exponent else 2 * 2 ^ exponent

theorem roundingInterval_low (mantissa exponent : Nat) :
    (roundingInterval mantissa exponent).low =
      4 * (mantissa * 2 ^ exponent) - lowerGap mantissa exponent := by
  simp only [roundingInterval, lowerGap, Nat.shiftLeft_eq, Bool.and_eq_true, beq_iff_eq, bne_iff_ne]
  congr 1
  split <;> omega

theorem roundingInterval_high (mantissa exponent : Nat) :
    (roundingInterval mantissa exponent).high =
      4 * (mantissa * 2 ^ exponent) + 2 * 2 ^ exponent := by
  simp [roundingInterval, Nat.shiftLeft_eq]

theorem lowerGap_le (mantissa exponent : Nat) : lowerGap mantissa exponent ≤ 2 * 2 ^ exponent := by
  unfold lowerGap
  split <;> omega

/-! ## Rounding a fraction -/

/-- A fraction at most half away from a number rounds to it, exactly half only if that is even. -/
theorem nearest_eq {numerator denominator mantissa : Nat} (hpos : 0 < denominator)
    (hlow : 2 * (mantissa * denominator) ≤ 2 * numerator + denominator)
    (hhigh : 2 * numerator ≤ 2 * (mantissa * denominator) + denominator)
    (htie : mantissa % 2 = 1 → 2 * (mantissa * denominator) < 2 * numerator + denominator ∧
      2 * numerator < 2 * (mantissa * denominator) + denominator) :
    nearest numerator denominator = mantissa := by
  have hdivision := Nat.div_add_mod numerator denominator
  have hremainder := Nat.mod_lt numerator hpos
  rw [Nat.mul_comm] at hdivision
  have hle : numerator / denominator ≤ mantissa := by
    rw [← Nat.lt_add_one_iff, Nat.div_lt_iff_lt_mul hpos, Nat.add_mul]
    omega
  have hge : mantissa - 1 ≤ numerator / denominator := by
    rw [Nat.le_div_iff_mul_le hpos, Nat.sub_mul]
    omega
  have hquotient : mantissa = numerator / denominator ∨ mantissa = numerator / denominator + 1 := by
    generalize numerator / denominator = quotient at hle hge
    omega
  unfold nearest
  simp only [Bool.or_eq_true, decide_eq_true_eq, Bool.and_eq_true, beq_iff_eq]
  generalize numerator / denominator = quotient at hdivision hquotient
  rcases hquotient with rfl | rfl
  · rw [if_pos]
    omega
  · rw [Nat.add_mul] at hlow hhigh htie
    rw [if_neg]
    omega

theorem log2_eq_of_bounds {number exponent : Nat} (hlow : 2 ^ exponent ≤ number)
    (hhigh : number < 2 ^ (exponent + 1)) : number.log2 = exponent := by
  have hne : number ≠ 0 := by
    have := Nat.two_pow_pos exponent
    omega
  have hge := (Nat.le_log2 hne).mpr hlow
  have hlt := (Nat.log2_lt hne).mpr hhigh
  omega

theorem ofUnits_of_exponent (negative : Bool) {numerator denominator exponent mantissa : Nat}
    (hexponent : (numerator / denominator).log2 - 52 = exponent)
    (hmantissa : nearest numerator (denominator * 2 ^ exponent) = mantissa) :
    ofUnits negative numerator denominator =
      if mantissa = mantissaBound then ofParts negative leastNormal (exponent + 1)
      else ofParts negative mantissa exponent := by
  unfold ofUnits
  simp only [hexponent, Nat.shiftLeft_eq, hmantissa, beq_iff_eq]

/-- The bounds of the interval, with the denominator multiplied out. -/
theorem bounds_of_contains {mantissa exponent numerator denominator : Nat}
    (h : (roundingInterval mantissa exponent).contains (4 * numerator) denominator = true) :
    let step := denominator * 2 ^ exponent
    (4 * (mantissa * step) ≤ 4 * numerator + lowerGap mantissa exponent * denominator ∧
      4 * numerator ≤ 4 * (mantissa * step) + 2 * step) ∧
    (mantissa % 2 = 1 →
      4 * (mantissa * step) < 4 * numerator + lowerGap mantissa exponent * denominator ∧
      4 * numerator < 4 * (mantissa * step) + 2 * step) := by
  intro step
  have hlow : (roundingInterval mantissa exponent).low * denominator =
      4 * (mantissa * step) - lowerGap mantissa exponent * denominator := by
    rw [roundingInterval_low, Nat.sub_mul]
    congr 1
    simp only [step]
    ring
  have hhigh : (roundingInterval mantissa exponent).high * denominator =
      4 * (mantissa * step) + 2 * step := by
    rw [roundingInterval_high]
    simp only [step]
    ring
  have hclosed : (roundingInterval mantissa exponent).closed = (mantissa % 2 == 0) := rfl
  unfold RoundingInterval.contains at h
  rw [hlow, hhigh, hclosed] at h
  by_cases heven : mantissa % 2 = 0
  · rw [heven] at h ⊢
    simp at h
    omega
  · have hodd : (mantissa % 2 == 0) = false := by simpa using heven
    rw [hodd] at h
    simp at h
    omega

theorem ofParts_eq (negative : Bool) {mantissa exponent : Nat}
    (hcanonical : Canonical mantissa exponent) :
    ofParts negative mantissa exponent = .finite negative mantissa exponent hcanonical :=
  dif_pos hcanonical

theorem div_lt_two_pow {numerator denominator exponent : Nat} (hpos : 0 < denominator) {bits : Nat}
    (h : numerator < 2 ^ bits * (denominator * 2 ^ exponent)) :
    numerator / denominator < 2 ^ (bits + exponent) := by
  rw [Nat.div_lt_iff_lt_mul hpos, Nat.pow_add]
  calc numerator < 2 ^ bits * (denominator * 2 ^ exponent) := h
    _ = 2 ^ bits * 2 ^ exponent * denominator := by ring

theorem two_pow_le_div {numerator denominator exponent : Nat} (hpos : 0 < denominator) {bits : Nat}
    (h : 2 ^ bits * (denominator * 2 ^ exponent) ≤ numerator) :
    2 ^ (bits + exponent) ≤ numerator / denominator := by
  rw [Nat.le_div_iff_mul_le hpos, Nat.pow_add]
  calc 2 ^ bits * 2 ^ exponent * denominator = 2 ^ bits * (denominator * 2 ^ exponent) := by ring
    _ ≤ numerator := h

/-- **A fraction of units in the interval of a double is rounded to it.** -/
theorem ofUnits_of_contains (negative : Bool) {mantissa exponent numerator denominator : Nat}
    (hcanonical : Canonical mantissa exponent) (hpos : 0 < denominator)
    (h : (roundingInterval mantissa exponent).contains (4 * numerator) denominator = true) :
    ofUnits negative numerator denominator = .finite negative mantissa exponent hcanonical := by
  obtain ⟨⟨hlow, hhigh⟩, hodd⟩ := bounds_of_contains h
  have hgap : lowerGap mantissa exponent * denominator ≤ 2 * (denominator * 2 ^ exponent) := by
    calc lowerGap mantissa exponent * denominator
        ≤ 2 * 2 ^ exponent * denominator := Nat.mul_le_mul_right _ (lowerGap_le _ _)
      _ = 2 * (denominator * 2 ^ exponent) := by ring
  obtain ⟨hbound, -, hnormal⟩ := id hcanonical
  have hstep : 0 < denominator * 2 ^ exponent := Nat.mul_pos hpos (Nat.two_pow_pos _)
  have hupper : mantissa * (denominator * 2 ^ exponent) + denominator * 2 ^ exponent ≤
      2 ^ 53 * (denominator * 2 ^ exponent) := by
    rw [← Nat.succ_mul]
    exact Nat.mul_le_mul_right _ hbound
  by_cases hshort : exponent ≠ 0 ∧ numerator < 2 ^ 52 * (denominator * 2 ^ exponent)
  · -- here the number is one bit shorter, and its mantissa carries into the least one
    obtain ⟨hexponent, hshort⟩ := hshort
    obtain ⟨shorter, rfl⟩ := Nat.exists_eq_add_one_of_ne_zero hexponent
    have hleast : mantissa = leastNormal := by
      rcases hnormal with hnormal | hzero
      · rcases Nat.lt_or_eq_of_le hnormal with hlt | heq
        · have hle := Nat.mul_le_mul_right (denominator * 2 ^ (shorter + 1)) hlt
          rw [Nat.succ_mul] at hle
          simp only [leastNormal] at hle
          omega
        · exact heq.symm
      · exact absurd hzero hexponent
    subst hleast
    have hhalf : denominator * 2 ^ (shorter + 1) = 2 * (denominator * 2 ^ shorter) := by
      rw [Nat.pow_succ]
      ring
    rw [lowerGap, if_pos ⟨rfl, hexponent⟩, Nat.mul_comm (2 ^ _), hhalf] at hlow
    rw [hhalf] at hshort
    have hlog : (numerator / denominator).log2 = 52 + shorter := by
      refine log2_eq_of_bounds (two_pow_le_div hpos ?_) ?_
      · simp only [leastNormal] at hlow
        omega
      · rw [Nat.add_right_comm]
        exact div_lt_two_pow hpos (by omega)
    have hnearest : nearest numerator (denominator * 2 ^ shorter) = mantissaBound := by
      refine nearest_eq (Nat.mul_pos hpos (Nat.two_pow_pos _)) ?_ ?_
        fun hodd => absurd hodd (by decide)
      all_goals
        simp only [leastNormal, mantissaBound] at hlow ⊢
        omega
    rw [ofUnits_of_exponent negative (by rw [hlog, Nat.add_sub_cancel_left]) hnearest, if_pos rfl]
    exact ofParts_eq negative hcanonical
  · have hexponent : (numerator / denominator).log2 - 52 = exponent := by
      have hlt : numerator / denominator < 2 ^ (53 + exponent) :=
        div_lt_two_pow hpos (by omega)
      rcases Nat.eq_zero_or_pos exponent with rfl | hexponent
      · rcases Nat.eq_zero_or_pos (numerator / denominator) with hzero | hquotient
        · rw [hzero, Nat.log2_zero]
        · have hlog := (Nat.log2_lt (Nat.ne_of_gt hquotient)).mpr hlt
          omega
      · have hle : 2 ^ (52 + exponent) ≤ numerator / denominator :=
          two_pow_le_div hpos (by omega)
        rw [log2_eq_of_bounds hle (by rwa [Nat.add_right_comm])]
        omega
    have hnearest : nearest numerator (denominator * 2 ^ exponent) = mantissa :=
      nearest_eq hstep (by omega) (by omega) fun h => by have := hodd h; omega
    rw [ofUnits_of_exponent negative hexponent hnearest, if_neg (Nat.ne_of_lt hbound)]
    exact ofParts_eq negative hcanonical

/-! ## Rounding a decimal -/

theorem ten_zpow_eq (power : Int) :
    (10 : ℚ) ^ power = ((10 ^ power.toNat : Nat) : ℚ) / ((10 ^ (-power).toNat : Nat) : ℚ) := by
  rcases Int.le_total 0 power with hle | hle
  · obtain ⟨count, rfl⟩ := Int.eq_ofNat_of_zero_le hle
    simp
  · obtain ⟨count, hcount⟩ := Int.eq_ofNat_of_zero_le (Int.neg_nonneg.mpr hle)
    obtain rfl : power = -(count : Int) := by omega
    simp

/-- The interval of a positive double is away from zero and from the numbers that are too large. -/
theorem holds_bounds {mantissa exponent : Nat} (hcanonical : Canonical mantissa exponent)
    (hpos : 0 < mantissa) {quarters : ℚ} (h : (roundingInterval mantissa exponent).Holds quarters) :
    2 ≤ quarters ∧ quarters ≤ ((2 ^ 55 * 2 ^ maxExponent : Nat) : ℚ) := by
  obtain ⟨⟨hlow, hhigh⟩, -⟩ := h
  obtain ⟨hbound, hmaximal, -⟩ := hcanonical
  have hone : 1 ≤ 2 ^ exponent := Nat.one_le_two_pow
  have hmul : 2 ^ exponent ≤ mantissa * 2 ^ exponent := Nat.le_mul_of_pos_left _ hpos
  have hgap := lowerGap_le mantissa exponent
  constructor
  · have htwo : 2 ≤ (roundingInterval mantissa exponent).low := by
      rw [roundingInterval_low]
      omega
    exact le_trans (by exact_mod_cast htwo) hlow
  · have hle : (roundingInterval mantissa exponent).high ≤ 2 ^ 55 * 2 ^ maxExponent := by
      have hnext := Nat.mul_le_mul_right (2 ^ exponent) (Nat.succ_le_of_lt hbound)
      have hpower : 2 ^ exponent ≤ 2 ^ maxExponent := Nat.pow_le_pow_right (by decide) hmaximal
      rw [Nat.succ_mul, mantissaBound] at hnext
      rw [roundingInterval_high]
      omega
    exact le_trans hhigh (by exact_mod_cast hle)

/-- A positive decimal lies between two powers of ten that its number of digits gives. -/
theorem value_bounds {number : Decimal} (hpos : 0 < number.digits) :
    let size : Int := number.power + (Nat.toDigits 10 number.digits).length
    (10 : ℚ) ^ (size - 1) ≤ number.value ∧ number.value < 10 ^ size := by
  intro size
  have hlength : 0 < (Nat.toDigits 10 number.digits).length := Nat.length_toDigits_pos
  obtain ⟨count, hcount⟩ : ∃ count, (Nat.toDigits 10 number.digits).length = count + 1 :=
    ⟨_, (Nat.succ_pred_eq_of_pos hlength).symm⟩
  have hlt : number.digits < 10 ^ (count + 1) :=
    (Nat.length_toDigits_le_iff (by decide) (Nat.succ_pos _)).mp (Nat.le_of_eq hcount)
  have hle : 10 ^ count ≤ number.digits := by
    rcases Nat.eq_zero_or_pos count with rfl | hcountPos
    · exact hpos
    · by_contra hnot
      have := (Nat.length_toDigits_le_iff (by decide) hcountPos).mpr (Nat.lt_of_not_le hnot)
      omega
  have hpower : (0 : ℚ) < 10 ^ number.power := by positivity
  have hsize : size = (count + 1 : Nat) + number.power := by
    simp only [size, hcount]
    omega
  unfold Decimal.value
  rw [hsize, zpow_add₀ (by norm_num), zpow_natCast]
  constructor
  · rw [add_sub_right_comm, Nat.cast_succ, add_sub_cancel_right, zpow_add₀ (by norm_num),
      zpow_natCast]
    exact mul_le_mul_of_nonneg_right (by exact_mod_cast hle) hpower.le
  · exact mul_lt_mul_of_pos_right (by exact_mod_cast hlt) hpower

/-- The size up to which a decimal is rounded leaves no double out. -/
theorem size_bounds {value : ℚ} {size : Int} (hge : (10 : ℚ) ^ (size - 1) ≤ value)
    (hlt : value < 10 ^ size) (hlow : 2 ≤ 4 * (unitsPerOne * value))
    (hhigh : 4 * (unitsPerOne * value) ≤ ((2 ^ 55 * 2 ^ maxExponent : Nat) : ℚ)) :
    -340 ≤ size ∧ size ≤ 340 := by
  have hunits : (0 : ℚ) < unitsPerOne := by exact_mod_cast unitsPerOne_pos
  constructor
  · by_contra hnot
    have hpower : value * 10 ^ 341 < 1 := by
      have hle : (10 : ℚ) ^ size ≤ 10 ^ (-341 : Int) := zpow_le_zpow_right₀ (by norm_num) (by omega)
      calc value * 10 ^ 341 < 10 ^ (-341 : Int) * 10 ^ 341 :=
            mul_lt_mul_of_pos_right (lt_of_lt_of_le hlt hle) (by positivity)
        _ = 1 := by rw [zpow_neg]; exact inv_mul_cancel₀ (by positivity)
    have hsmall : (2 * unitsPerOne : ℚ) ≤ 10 ^ 341 := by
      exact_mod_cast (by decide +kernel : 2 * unitsPerOne ≤ 10 ^ 341)
    have hpos : 0 < value := by
      by_contra hnonpos
      have := mul_nonpos_of_nonneg_of_nonpos hunits.le (not_lt.mp hnonpos)
      linarith
    have := mul_le_mul_of_nonneg_right hsmall hpos.le
    generalize (10 : ℚ) ^ 341 = bound at *
    linarith
  · by_contra hnot
    have hle : (10 : ℚ) ^ (340 : Int) ≤ 10 ^ (size - 1) :=
      zpow_le_zpow_right₀ (by norm_num) (by omega)
    rw [zpow_ofNat] at hle
    have hpower : (10 : ℚ) ^ 340 ≤ value := le_trans hle hge
    have hlarge : ((2 ^ 55 * 2 ^ maxExponent : Nat) : ℚ) < 4 * (unitsPerOne * 10 ^ 340) := by
      exact_mod_cast (by decide +kernel : 2 ^ 55 * 2 ^ maxExponent < 4 * (unitsPerOne * 10 ^ 340))
    have := mul_le_mul_of_nonneg_left hpower hunits.le
    generalize (10 : ℚ) ^ 340 = bound at *
    linarith

theorem digits_pos_of_holds {mantissa exponent : Nat} (hcanonical : Canonical mantissa exponent)
    (hpos : 0 < mantissa) {number : Decimal}
    (h : (roundingInterval mantissa exponent).Holds (4 * (unitsPerOne * number.value))) :
    0 < number.digits := by
  obtain ⟨hlow, -⟩ := holds_bounds hcanonical hpos h
  rcases Nat.eq_zero_or_pos number.digits with hzero | hdigits
  · rw [Decimal.value, hzero, Nat.cast_zero, zero_mul, mul_zero, mul_zero] at hlow
    exact absurd hlow (by norm_num)
  · exact hdigits

/-- A decimal in an interval, as the fraction of units that is rounded. -/
theorem contains_of_holds {interval : RoundingInterval} {number : Decimal}
    (h : interval.Holds (4 * (unitsPerOne * number.value))) :
    interval.contains (4 * (number.digits * unitsPerOne * 10 ^ number.power.toNat))
      (10 ^ (-number.power).toNat) = true := by
  rw [RoundingInterval.contains_iff _ _ (Nat.pow_pos (by decide))]
  convert h using 1
  rw [Decimal.value, ten_zpow_eq]
  push_cast
  ring

/-- **A decimal in the interval of a positive double is read as that double.** -/
theorem toBinary64_of_holds (negative : Bool) {mantissa exponent : Nat}
    (hcanonical : Canonical mantissa exponent) (hpos : 0 < mantissa) {number : Decimal}
    (h : (roundingInterval mantissa exponent).Holds (4 * (unitsPerOne * number.value))) :
    number.toBinary64 negative = .finite negative mantissa exponent hcanonical := by
  obtain ⟨hlow, hhigh⟩ := holds_bounds hcanonical hpos h
  have hdigits := digits_pos_of_holds hcanonical hpos h
  obtain ⟨hge, hlt⟩ := value_bounds hdigits
  obtain ⟨hsmall, hlarge⟩ := size_bounds hge hlt hlow hhigh
  unfold Decimal.toBinary64 ofDecimal
  rw [if_neg, if_neg (by omega)]
  · exact ofUnits_of_contains negative hcanonical (Nat.pow_pos (by decide)) (contains_of_holds h)
  · simp only [Bool.or_eq_true, beq_iff_eq, decide_eq_true_eq]
    omega

/-- A decimal in the interval of zero is read as zero. -/
theorem toBinary64_of_holds_zero (negative : Bool) {number : Decimal}
    (h : (roundingInterval 0 0).Holds (4 * (unitsPerOne * number.value))) :
    number.toBinary64 negative = .zero negative := by
  unfold Decimal.toBinary64 ofDecimal
  dsimp only
  split_ifs with hsmall hlarge
  · rfl
  · -- a decimal of that size is no less than one, and the interval ends far below
    exfalso
    simp only [Bool.or_eq_true, beq_iff_eq, decide_eq_true_eq, not_or] at hsmall
    have hone : (1 : ℚ) ≤ number.value := by
      refine le_trans ?_ (value_bounds (Nat.pos_of_ne_zero hsmall.1)).1
      exact one_le_zpow₀ (by norm_num) (by omega)
    have hunits : (1 : ℚ) ≤ unitsPerOne := by exact_mod_cast unitsPerOne_pos
    have hhigh : 4 * (unitsPerOne * number.value) ≤ 2 := by
      have hbound := h.1.2
      rw [roundingInterval_high] at hbound
      exact hbound.trans (by norm_num)
    have hproduct := mul_le_mul hunits hone zero_le_one (zero_le_one.trans hunits)
    linarith
  · exact ofUnits_of_contains negative canonical_zero (Nat.pow_pos (by decide))
      (contains_of_holds h)

/-- **A decimal in the interval of a double is read as that double**, zero included. -/
theorem toBinary64_of_interval (negative : Bool) {mantissa exponent : Nat}
    (hcanonical : Canonical mantissa exponent) {number : Decimal}
    (h : (roundingInterval mantissa exponent).Holds (4 * (unitsPerOne * number.value))) :
    number.toBinary64 negative = .finite negative mantissa exponent hcanonical := by
  rcases Nat.eq_zero_or_pos mantissa with rfl | hpos
  · obtain rfl : exponent = 0 := by
      obtain ⟨-, -, hleast | hzero⟩ := hcanonical
      · exact absurd hleast (by decide)
      · exact hzero
    exact toBinary64_of_holds_zero negative h
  · exact toBinary64_of_holds negative hcanonical hpos h

end Binary64

end Logbook
