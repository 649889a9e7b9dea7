import Logbook.Proofs.Binary64.Exact

/-!
# Rounding keeps the order

A number of units that is rounded to a double may end up at another number, but never on the other
side of one that is rounded as well (`roundUnits_mono`).  Doubles are rounded to themselves
(`roundUnits_units`), and an integer of 64 bits is rounded in units to the double that it is
converted to (`ofInt_int64`).

## Strategy

Between two powers of two all numbers are rounded to multiples of one step, and `nearest` is
monotone.  Where the step changes, the number of 53 bits that the lower one can reach at most is
the number from which the upper one starts.
-/

namespace Logbook

namespace Binary64

/-! ## The nearest integer -/

theorem div_le_nearest (numerator denominator : Nat) :
    numerator / denominator ≤ nearest numerator denominator := by
  unfold nearest
  dsimp only
  split <;> omega

theorem nearest_le_of_lt {numerator denominator bound : Nat}
    (h : numerator / denominator < bound) : nearest numerator denominator ≤ bound := by
  unfold nearest
  dsimp only
  split <;> omega

theorem nearest_mono {left right : Nat} (h : left ≤ right) (denominator : Nat) :
    nearest left denominator ≤ nearest right denominator := by
  have hquotient := Nat.div_le_div_right h (c := denominator)
  rcases Nat.lt_or_eq_of_le hquotient with hlt | heq
  · exact (nearest_le_of_lt hlt).trans (div_le_nearest right denominator)
  · have hleft := Nat.div_add_mod left denominator
    have hright := Nat.div_add_mod right denominator
    rw [← heq] at hright
    unfold nearest
    simp only [← heq, Bool.or_eq_true, decide_eq_true_eq, Bool.and_eq_true, beq_iff_eq]
    generalize denominator * (left / denominator) = whole at hleft hright
    split <;> split <;> omega

/-! ## Numbers of units -/

/-- The exponent of the step to whose multiples a number of units is rounded. -/
def stepExponent (magnitude : Nat) : Nat := magnitude.log2 - 52

/-- The number of units that a number of units is rounded to. -/
def roundMagnitude (magnitude : Nat) : Nat :=
  nearest magnitude (1 <<< stepExponent magnitude) * 2 ^ stepExponent magnitude

theorem div_lt_mantissaBound (magnitude : Nat) :
    magnitude / (1 <<< stepExponent magnitude) < mantissaBound := by
  rw [Nat.one_shiftLeft, Nat.div_lt_iff_lt_mul (Nat.two_pow_pos _)]
  have hbound : mantissaBound = 2 ^ 53 := rfl
  rw [hbound, ← Nat.pow_add]
  refine Nat.lt_of_lt_of_le Nat.lt_log2_self (Nat.pow_le_pow_right Nat.two_pos ?_)
  unfold stepExponent
  omega

theorem leastNormal_le_div {magnitude : Nat} (h : stepExponent magnitude ≠ 0) :
    leastNormal ≤ magnitude / (1 <<< stepExponent magnitude) := by
  have hne : magnitude ≠ 0 := by
    rintro rfl
    exact h rfl
  rw [Nat.one_shiftLeft, Nat.le_div_iff_mul_le (Nat.two_pow_pos _)]
  have hbound : leastNormal = 2 ^ 52 := rfl
  rw [hbound, ← Nat.pow_add]
  refine Nat.le_trans (Nat.pow_le_pow_right Nat.two_pos ?_) (Nat.log2_self_le hne)
  unfold stepExponent at h ⊢
  omega

theorem stepExponent_mono {left right : Nat} (h : left ≤ right) :
    stepExponent left ≤ stepExponent right := by
  by_cases hzero : left = 0
  · rw [hzero]
    exact Nat.zero_le _
  · have hlog : left.log2 ≤ right.log2 :=
      (Nat.le_log2 (by omega)).mpr ((Nat.log2_self_le hzero).trans h)
    unfold stepExponent
    omega

theorem roundMagnitude_mono {left right : Nat} (h : left ≤ right) :
    roundMagnitude left ≤ roundMagnitude right := by
  rcases Nat.lt_or_eq_of_le (stepExponent_mono h) with hlt | heq
  -- The steps differ: the power of two between them is above the one and below the other.
  · have hstep : stepExponent right ≠ 0 := by omega
    calc roundMagnitude left
        ≤ mantissaBound * 2 ^ stepExponent left :=
          Nat.mul_le_mul_right _ (nearest_le_of_lt (div_lt_mantissaBound left))
      _ = leastNormal * 2 ^ (stepExponent left + 1) := by
          have htwice : mantissaBound = leastNormal * 2 := rfl
          rw [htwice, Nat.mul_assoc, Nat.pow_succ, Nat.mul_comm 2]
      _ ≤ leastNormal * 2 ^ stepExponent right :=
          Nat.mul_le_mul_left _ (Nat.pow_le_pow_right Nat.two_pos hlt)
      _ ≤ roundMagnitude right :=
          Nat.mul_le_mul_right _ ((leastNormal_le_div hstep).trans (div_le_nearest _ _))
  · unfold roundMagnitude
    rw [heq]
    exact Nat.mul_le_mul_right _ (nearest_mono h _)

/-- The units of the double that a signed number of units is rounded to. -/
def roundUnits (units : Int) : Int := signed (decide (units < 0)) (roundMagnitude units.natAbs)

/-- **Rounding keeps the order.** -/
theorem roundUnits_mono {left right : Int} (h : left ≤ right) :
    roundUnits left ≤ roundUnits right := by
  unfold roundUnits signed
  simp only [decide_eq_true_eq]
  split_ifs with hleft hright hright
  · have hmagnitude : right.natAbs ≤ left.natAbs := by omega
    have hround := roundMagnitude_mono hmagnitude
    omega
  · omega
  · omega
  · have hmagnitude : left.natAbs ≤ right.natAbs := by omega
    have hround := roundMagnitude_mono hmagnitude
    omega

/-! ## Doubles -/

theorem units_ofParts {negative : Bool} {mantissa exponent : Nat}
    (h : (ofParts negative mantissa exponent).isFinite = true) :
    (ofParts negative mantissa exponent).units = signed negative (mantissa * 2 ^ exponent) := by
  unfold ofParts at h ⊢
  split at h
  · next hcanonical =>
    rw [dif_pos hcanonical, units, Nat.shiftLeft_eq]
  · cases h

theorem isFinite_ofParts {mantissa exponent : Nat} (negative : Bool)
    (h : Canonical mantissa exponent) : (ofParts negative mantissa exponent).isFinite = true := by
  unfold ofParts
  rw [dif_pos h]
  rfl

theorem ofUnits_one (negative : Bool) (magnitude : Nat) :
    ofUnits negative magnitude 1 =
      if nearest magnitude (1 <<< stepExponent magnitude) = mantissaBound then
        ofParts negative leastNormal (stepExponent magnitude + 1)
      else ofParts negative (nearest magnitude (1 <<< stepExponent magnitude))
        (stepExponent magnitude) := by
  unfold ofUnits
  simp only [Nat.div_one, beq_iff_eq]
  rfl

/-- Where there is no overflow, a number of units is rounded as described. -/
theorem units_ofUnits {negative : Bool} {magnitude : Nat}
    (h : (ofUnits negative magnitude 1).isFinite = true) :
    (ofUnits negative magnitude 1).units = signed negative (roundMagnitude magnitude) := by
  rw [ofUnits_one] at h ⊢
  unfold roundMagnitude
  split at h
  · next hbound =>
    rw [if_pos hbound, units_ofParts h, hbound, Nat.pow_succ, Nat.mul_comm _ 2, ← Nat.mul_assoc]
    rfl
  · next hbound =>
    rw [if_neg hbound, units_ofParts h]

theorem isFinite_ofUnits {magnitude : Nat} (negative : Bool)
    (h : stepExponent magnitude < maxExponent) :
    (ofUnits negative magnitude 1).isFinite = true := by
  rw [ofUnits_one]
  split
  · exact isFinite_ofParts negative ⟨by decide, h, .inl (Nat.le_refl _)⟩
  · next hbound =>
    have hle := nearest_le_of_lt (div_lt_mantissaBound magnitude)
    refine isFinite_ofParts negative ⟨by omega, Nat.le_of_lt h, ?_⟩
    refine or_iff_not_imp_right.mpr fun hstep => ?_
    exact (leastNormal_le_div hstep).trans (div_le_nearest _ _)

/-- A double is rounded to itself. -/
theorem roundUnits_units (number : Binary64) : roundUnits number.units = number.units := by
  by_cases hzero : number.units = 0
  · rw [hzero]
    decide
  · have hround := ofUnits_units hzero
    have hfinite : number.isFinite = true := by
      cases number with
      | finite => rfl
      | _ => exact absurd rfl hzero
    have hunits := units_ofUnits (hround.symm ▸ hfinite)
    rw [hround] at hunits
    exact hunits.symm

theorem log2_mul_lt {number bits exponent : Nat} (hpos : 0 < bits) (h : number < 2 ^ bits) :
    (number * 1 <<< exponent).log2 < bits + exponent := by
  rw [Nat.one_shiftLeft]
  by_cases hzero : number = 0
  · rw [hzero, Nat.zero_mul]
    exact Nat.add_pos_left hpos _
  · refine (Nat.log2_lt (Nat.mul_ne_zero hzero (Nat.two_pow_pos _).ne')).mpr ?_
    rw [Nat.pow_add]
    exact Nat.mul_lt_mul_of_pos_right h (Nat.two_pow_pos _)

/-- An integer of 64 bits is converted to the double that its units are rounded to. -/
theorem ofInt_int64 (integer : Int64) :
    (ofInt integer.toInt).isFinite = true ∧
      (ofInt integer.toInt).units = roundUnits (integer.toInt * unitsPerOne) := by
  have hpos := unitsPerOne_pos
  have hstep : stepExponent (integer.toInt.natAbs * unitsPerOne) < maxExponent := by
    have hbelow := integer.toInt_lt
    have habove := integer.le_toInt
    have habs : integer.toInt.natAbs ≤ 2 ^ 63 := by omega
    have hlog : (integer.toInt.natAbs * unitsPerOne).log2 < 64 + 1074 :=
      log2_mul_lt (by decide) (Nat.lt_of_le_of_lt habs (by decide))
    unfold stepExponent maxExponent
    omega
  have hfinite := isFinite_ofUnits (decide (integer.toInt < 0)) hstep
  refine ⟨hfinite, (units_ofUnits hfinite).trans ?_⟩
  have hsign : integer.toInt * unitsPerOne < 0 ↔ integer.toInt < 0 :=
    ⟨fun hlt => neg_of_mul_neg_left hlt hpos.le, fun hlt => Int.mul_neg_of_neg_of_pos hlt hpos⟩
  rw [roundUnits, decide_eq_decide.mpr hsign, Int.natAbs_mul, Int.natAbs_natCast]

end Binary64

end Logbook
