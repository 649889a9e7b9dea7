import Logbook.Proofs.Binary64.Nearest

/-!
# The shortest decimal lies in the interval

`shortest` looks through ever finer decimal grids for a point in the interval of a double.
Whatever it finds lies in the interval, so it is read as the double again.  What is left is
that it finds something.

## Strategy

On the grid of seventeen digits a step is less than twice the distance from the double to
the lower end of its interval, because `10 ^ 16` is more than `2 ^ 53`
(`step_lt_of_digits`).  One of the two grid points around the double is at most half a step
away from it, and that point lies in the interval (`exists_gridPoint`).  The number of
digits is counted from the least power of ten above the double, which is found from a
guess; that the guess is not too large is a comparison for each bit length
(`belowPowerOfTen_guess`).
-/

namespace Logbook

namespace Binary64

/-! ## Points of a grid -/

theorem quarters_eq (digits : Nat) (power : Int) :
    ((digits * (4 * unitsPerOne * 10 ^ power.toNat) : Nat) : ℚ) / (10 ^ (-power).toNat : Nat) =
      4 * (unitsPerOne * (⟨digits, power⟩ : Decimal).value) := by
  rw [Decimal.value, ten_zpow_eq]
  push_cast
  ring

/-- What is found on a grid lies in the interval. -/
theorem RoundingInterval.holds_of_gridPoint {interval : RoundingInterval} {tie : Tie} {power : Int}
    {digits : Nat} (h : interval.gridPoint? tie power = some digits) :
    interval.Holds (4 * (unitsPerOne * (⟨digits, power⟩ : Decimal).value)) := by
  rw [← quarters_eq, ← interval.contains_iff _ (Nat.pow_pos (by decide))]
  unfold gridPoint? at h
  simp only [Nat.pow_eq] at h
  repeat' split at h
  all_goals grind

theorem RoundingInterval.contains_of_lt {interval : RoundingInterval} {numerator denominator : Nat}
    (hlow : interval.low * denominator < numerator)
    (hhigh : numerator < interval.high * denominator) :
    interval.contains numerator denominator = true := by
  unfold contains
  split <;> simp <;> omega

/-- **A grid finer than the interval has a point in it.** -/
theorem RoundingInterval.exists_gridPoint (interval : RoundingInterval) {gap : Nat} (tie : Tie)
    {power : Int} (hlow : interval.low + gap = interval.center)
    (hhigh : interval.center + gap ≤ interval.high)
    (hstep : 4 * unitsPerOne * 10 ^ power.toNat < 2 * (gap * 10 ^ (-power).toNat)) :
    ∃ digits, interval.gridPoint? tie power = some digits := by
  have hpos : 0 < 4 * unitsPerOne * 10 ^ power.toNat :=
    Nat.mul_pos (Nat.mul_pos (by decide) (by exact_mod_cast unitsPerOne_pos))
      (Nat.pow_pos (by decide))
  unfold gridPoint?
  simp only [Nat.pow_eq]
  generalize 4 * unitsPerOne * 10 ^ power.toNat = step at hstep hpos ⊢
  generalize 10 ^ (-power).toNat = scale at hstep ⊢
  have hcenter := congrArg (· * scale) hlow
  have hupper := Nat.mul_le_mul_right scale hhigh
  simp only [Nat.add_mul] at hcenter hupper
  have hbelow := Nat.div_mul_le_self (interval.center * scale) step
  have habove := Nat.lt_div_mul_add (a := interval.center * scale) hpos
  generalize hquotient : interval.center * scale / step = below at hbelow habove ⊢
  -- the nearer of the two points around the center is at most half a step away
  have hinside : interval.contains (below * step) scale = true ∨
      interval.contains ((below + 1) * step) scale = true := by
    rcases Nat.le_total (2 * (interval.center * scale)) (2 * (below * step) + step) with hle | hle
    · exact .inl (contains_of_lt (by omega) (by omega))
    · exact .inr (contains_of_lt (by rw [Nat.add_mul]; omega) (by rw [Nat.add_mul]; omega))
  by_cases hboth : (interval.contains (below * step) scale &&
      interval.contains ((below + 1) * step) scale) = true
  · rw [if_pos hboth]
    split
    · exact ⟨_, rfl⟩
    · split
      · exact ⟨_, rfl⟩
      · cases tie <;> exact ⟨_, rfl⟩
  · rw [if_neg hboth]
    rcases hinside with hinside | hinside
    · exact ⟨_, if_pos hinside⟩
    · split <;> exact ⟨_, rfl⟩

/-! ## The number of digits -/

theorem belowPowerOfTen_iff (magnitude : Nat) (power : Int) :
    belowPowerOfTen magnitude power = true ↔ (magnitude : ℚ) < unitsPerOne * 10 ^ power := by
  have hscale : (0 : ℚ) < (10 ^ (-power).toNat : Nat) := by positivity
  rw [belowPowerOfTen, decide_eq_true_iff, ten_zpow_eq, ← mul_div_assoc, lt_div_iff₀ hscale]
  exact_mod_cast Iff.rfl

/-- The power that is guessed from the bit length is at most two too large. -/
theorem belowPowerOfTen_guess : ∀ bits : Nat, bits < 2100 →
    belowPowerOfTen (2 ^ bits) (((bits : Int) - 1074) * 30103 / 100000 - 2) = false := by
  decide +kernel

/-- A positive magnitude is at least a tenth of the power that is found above it. -/
theorem le_of_powerAbove {magnitude : Nat} (hpos : 0 < magnitude) (hbits : magnitude.log2 < 2100) :
    unitsPerOne * (10 : ℚ) ^ (powerAbove magnitude - 1) ≤ magnitude := by
  have hnot {power : Int} (h : ¬ belowPowerOfTen magnitude power = true) :
      unitsPerOne * (10 : ℚ) ^ power ≤ magnitude := by
    rw [belowPowerOfTen_iff] at h
    exact not_lt.mp h
  unfold powerAbove
  have hguess := belowPowerOfTen_guess magnitude.log2 hbits
  generalize ((magnitude.log2 : Int) - 1074) * 30103 / 100000 = guess at hguess ⊢
  dsimp only
  split
  · have hle : 2 ^ magnitude.log2 ≤ magnitude := Nat.log2_self_le hpos.ne'
    rw [← Bool.not_eq_true, belowPowerOfTen_iff, not_lt] at hguess
    rw [show guess - 1 - 1 = guess - 2 by ring]
    exact le_trans hguess (by exact_mod_cast hle)
  · split
    · next hbelow _ => exact hnot hbelow
    · split
      · next hbelow _ => rw [add_sub_cancel_right]; exact hnot hbelow
      · next hbelow => rw [show guess + 2 - 1 = guess + 1 by ring]; exact hnot hbelow

theorem double_lt_lowerGap {mantissa : Nat} (exponent : Nat) (hbound : mantissa < mantissaBound) :
    2 * (mantissa * 2 ^ exponent) < lowerGap mantissa exponent * 10 ^ 16 := by
  have hpower : 0 < 2 ^ exponent := Nat.two_pow_pos _
  unfold lowerGap
  split
  · next hleast =>
    rw [hleast.1, leastNormal]
    omega
  · have hmul := Nat.mul_le_mul_right (2 ^ exponent) hbound
    rw [Nat.succ_mul, mantissaBound] at hmul
    omega

/-- Seventeen digits are a grid finer than the interval. -/
theorem step_lt_of_digits {mantissa exponent : Nat} (hcanonical : Canonical mantissa exponent)
    (hpos : 0 < mantissa) :
    let power := powerAbove (mantissa * 2 ^ exponent) - 17
    4 * unitsPerOne * 10 ^ power.toNat <
      2 * (lowerGap mantissa exponent * 10 ^ (-power).toNat) := by
  intro power
  have hmagnitude : 0 < mantissa * 2 ^ exponent := Nat.mul_pos hpos (Nat.two_pow_pos _)
  have hlog : (mantissa * 2 ^ exponent).log2 < 53 + exponent := by
    rw [Nat.log2_lt hmagnitude.ne', Nat.pow_add]
    exact Nat.mul_lt_mul_of_pos_right hcanonical.1 (Nat.two_pow_pos _)
  have hbits : (mantissa * 2 ^ exponent).log2 < 2100 := by
    have hmaximal := hcanonical.2.1
    rw [maxExponent] at hmaximal
    omega
  have hle := le_of_powerAbove hmagnitude hbits
  have hlt : (2 * (mantissa * 2 ^ exponent : Nat) : ℚ) < lowerGap mantissa exponent * 10 ^ 16 := by
    exact_mod_cast double_lt_lowerGap exponent hcanonical.1
  have hscale : (0 : ℚ) < (10 ^ (-power).toNat : Nat) := by positivity
  have hpower : (10 : ℚ) ^ (powerAbove (mantissa * 2 ^ exponent) - 1) = 10 ^ power * 10 ^ 16 := by
    rw [← zpow_natCast, ← zpow_add₀ (by norm_num)]
    congr 1
    simp only [power]
    push_cast
    ring
  have hstep : (4 * (unitsPerOne * 10 ^ power) : ℚ) < 2 * lowerGap mantissa exponent := by
    rw [hpower] at hle
    linarith
  rw [ten_zpow_eq, ← mul_div_assoc, ← mul_div_assoc, div_lt_iff₀ hscale] at hstep
  have hcast : ((4 * unitsPerOne * 10 ^ power.toNat : Nat) : ℚ) <
      (2 * (lowerGap mantissa exponent * 10 ^ (-power).toNat) : Nat) := by
    push_cast at hstep ⊢
    linarith
  exact_mod_cast hcast

/-! ## The shortest decimal -/

theorem dropTrailingZeros_value (fuel : Nat) (number : Decimal) :
    (dropTrailingZeros fuel number).value = number.value := by
  induction fuel generalizing number with
  | zero => rfl
  | succ fuel ih =>
    unfold dropTrailingZeros
    split
    · next hzero =>
      simp only [Bool.and_eq_true, beq_iff_eq] at hzero
      obtain ⟨tens, htens⟩ := Nat.dvd_of_mod_eq_zero hzero.2
      rw [ih, Decimal.value, Decimal.value, htens, Nat.mul_div_cancel_left _ (by decide),
        zpow_add_one₀ (by norm_num)]
      push_cast
      ring
    · rfl

/-- One of the grids has a point in the interval of a positive double. -/
theorem exists_shortest (tie : Tie) {mantissa exponent : Nat}
    (hcanonical : Canonical mantissa exponent) (hpos : 0 < mantissa) :
    ∃ digits power, (roundingInterval mantissa exponent).gridPoint? tie power = some digits ∧
      shortest tie mantissa exponent = dropTrailingZeros 17 ⟨digits, power⟩ := by
  have hgap := lowerGap_le mantissa exponent
  have hpower : 2 ^ exponent ≤ mantissa * 2 ^ exponent := Nat.le_mul_of_pos_left _ hpos
  have hcenter : (roundingInterval mantissa exponent).center = 4 * (mantissa * 2 ^ exponent) := by
    simp [roundingInterval, Nat.shiftLeft_eq]
  obtain ⟨digits, hdigits⟩ := RoundingInterval.exists_gridPoint
    (roundingInterval mantissa exponent) tie
    (by rw [roundingInterval_low, hcenter]; omega)
    (by rw [roundingInterval_high, hcenter]; omega)
    (step_lt_of_digits hcanonical hpos)
  unfold shortest
  rw [if_neg (by simpa using hpos.ne')]
  simp only [Nat.shiftLeft_eq]
  cases hfound : (List.range' 1 17).findSome? fun count : Nat =>
      ((roundingInterval mantissa exponent).gridPoint? tie
        (powerAbove (mantissa * 2 ^ exponent) - count)).map
          (Decimal.mk · (powerAbove (mantissa * 2 ^ exponent) - count)) with
  | none =>
    have hnone := List.findSome?_eq_none_iff.mp hfound 17 (by decide)
    simp [hdigits] at hnone
  | some number =>
    obtain ⟨count, -, hcount⟩ := List.exists_of_findSome?_eq_some hfound
    obtain ⟨coarser, hcoarser, rfl⟩ := Option.map_eq_some_iff.mp hcount
    exact ⟨_, _, hcoarser, rfl⟩

/-- **The shortest decimal of a positive double lies in its interval.** -/
theorem shortest_holds (tie : Tie) {mantissa exponent : Nat}
    (hcanonical : Canonical mantissa exponent) (hpos : 0 < mantissa) :
    (roundingInterval mantissa exponent).Holds
      (4 * (unitsPerOne * (shortest tie mantissa exponent).value)) := by
  obtain ⟨digits, power, hdigits, hshortest⟩ := exists_shortest tie hcanonical hpos
  rw [hshortest, dropTrailingZeros_value]
  exact RoundingInterval.holds_of_gridPoint hdigits

theorem shortest_digits_pos (tie : Tie) {mantissa exponent : Nat}
    (hcanonical : Canonical mantissa exponent) (hpos : 0 < mantissa) :
    0 < (shortest tie mantissa exponent).digits :=
  digits_pos_of_holds hcanonical hpos (shortest_holds tie hcanonical hpos)

/-- **Any decimal of the value of the shortest one is read as the double.** -/
theorem toBinary64_of_shortest (negative : Bool) (tie : Tie) {mantissa exponent : Nat}
    (hcanonical : Canonical mantissa exponent) {number : Decimal}
    (h : number.value = (shortest tie mantissa exponent).value) :
    number.toBinary64 negative = .finite negative mantissa exponent hcanonical := by
  rcases Nat.eq_zero_or_pos mantissa with rfl | hpos
  · obtain rfl : exponent = 0 := hcanonical.2.2.resolve_left (by decide)
    have hdigits : number.digits = 0 := by
      have hzero : number.value = 0 := by
        rw [h]
        simp [shortest, Decimal.value]
      have hpower : (10 : ℚ) ^ number.power ≠ 0 := zpow_ne_zero _ (by norm_num)
      exact_mod_cast (mul_eq_zero.mp hzero).resolve_right hpower
    rw [Decimal.toBinary64, hdigits, ofDecimal]
    rfl
  · exact toBinary64_of_holds negative hcanonical hpos (h ▸ shortest_holds tie hcanonical hpos)

end Binary64

end Logbook
