import Logbook.Proofs.Binary64.Nearest

/-!
# Numbers that are doubles

What a double stands for lies in the middle of its own interval, so rounding gives the
double back.  Hence a number has one double only, zero apart (`eq_of_units`), and an
integer that equals some double is converted to it (`ofInt_of_units`).
-/

namespace Logbook

namespace Binary64

/-- A number of units that is a double rounds to that double. -/
theorem ofUnits_shiftLeft (negative : Bool) {mantissa exponent : Nat}
    (hcanonical : Canonical mantissa exponent) :
    ofUnits negative (mantissa <<< exponent) 1 =
      .finite negative mantissa exponent hcanonical := by
  refine ofUnits_of_contains negative hcanonical Nat.one_pos ?_
  have hpower := Nat.two_pow_pos exponent
  have hgap : 0 < lowerGap mantissa exponent := by
    unfold lowerGap
    split <;> omega
  have hclosed : (roundingInterval mantissa exponent).closed = (mantissa % 2 == 0) := rfl
  unfold RoundingInterval.contains
  rw [roundingInterval_low, roundingInterval_high, hclosed, Nat.shiftLeft_eq]
  split
  · simp only [Bool.and_eq_true, decide_eq_true_eq]
    omega
  · next hodd =>
    -- An open interval has an odd mantissa, so its lower end is below the number.
    have hpos : 0 < mantissa * 2 ^ exponent :=
      Nat.mul_pos (Nat.pos_of_ne_zero fun hzero => hodd (by rw [hzero]; rfl)) hpower
    simp only [Bool.and_eq_true, decide_eq_true_eq]
    omega

/-- A finite double is the one that its units round to. -/
theorem ofUnits_units {number : Binary64} (h : number.units ≠ 0) :
    ofUnits (decide (number.units < 0)) number.units.natAbs 1 = number := by
  cases number with
  | finite negative mantissa exponent hcanonical =>
    have hround := ofUnits_shiftLeft negative hcanonical
    have hunits : (finite negative mantissa exponent hcanonical).units =
        signed negative (mantissa <<< exponent) := rfl
    rw [hunits] at h ⊢
    generalize mantissa <<< exponent = magnitude at h hround ⊢
    have habs : (signed negative magnitude).natAbs = magnitude := by
      cases negative <;> simp [signed]
    have hsign : decide (signed negative magnitude < 0) = negative := by
      cases negative <;> simp [signed] at h ⊢
      omega
    rw [habs, hsign, hround]
  | _ => exact absurd rfl h

/-- Only zeros are written in two ways. -/
theorem eq_of_units {left right : Binary64} (hne : left.units ≠ 0)
    (h : left.units = right.units) : left = right := by
  have hleft := ofUnits_units hne
  rw [h] at hleft hne
  exact hleft.symm.trans (ofUnits_units hne)

theorem ofInt_zero : ofInt 0 = zero false := by
  have hzero : ofInt 0 = ofUnits false (0 <<< 0) 1 := by simp [ofInt]
  exact hzero.trans (ofUnits_shiftLeft false canonical_zero)

/-- An integer that a double equals is converted without rounding. -/
theorem ofInt_of_units {integer : Int} {number : Binary64} (hne : integer ≠ 0)
    (h : number.units = integer * unitsPerOne) : ofInt integer = number := by
  have hpos := unitsPerOne_pos
  have hunits : number.units ≠ 0 := by
    rw [h]
    exact Int.mul_ne_zero hne hpos.ne'
  have habs : number.units.natAbs = integer.natAbs * unitsPerOne := by
    rw [h, Int.natAbs_mul, Int.natAbs_natCast]
  have hsign : number.units < 0 ↔ integer < 0 := by
    rw [h]
    exact ⟨fun hlt => neg_of_mul_neg_left hlt hpos.le,
      fun hlt => Int.mul_neg_of_neg_of_pos hlt hpos⟩
  rw [ofInt, ← habs, ← decide_eq_decide.mpr hsign, ofUnits_units hunits]

/-- An integer of at most 53 bits is a double. -/
theorem exists_units_of_lt {integer : Int} (h : integer.natAbs < mantissaBound) :
    ∃ number : Binary64, number.isFinite = true ∧ number.units = integer * unitsPerOne := by
  by_cases hzero : integer = 0
  · exact ⟨zero false, rfl, by rw [hzero, Int.zero_mul]; rfl⟩
  · set magnitude := integer.natAbs with hmagnitude
    have hne : magnitude ≠ 0 := by omega
    set bits := magnitude.log2
    have hbound : bits < 53 := (Nat.log2_lt hne).mpr h
    -- The mantissa is the integer with its leading bit moved to the front.
    have hlow : 2 ^ 52 ≤ magnitude * 2 ^ (52 - bits) := by
      calc 2 ^ 52 = 2 ^ bits * 2 ^ (52 - bits) := by rw [← Nat.pow_add]; congr 1; omega
        _ ≤ magnitude * 2 ^ (52 - bits) := Nat.mul_le_mul_right _ (Nat.log2_self_le hne)
    have hhigh : magnitude * 2 ^ (52 - bits) < 2 ^ 53 := by
      calc magnitude * 2 ^ (52 - bits) < 2 ^ (bits + 1) * 2 ^ (52 - bits) :=
            Nat.mul_lt_mul_of_pos_right Nat.lt_log2_self (Nat.two_pow_pos _)
        _ = 2 ^ 53 := by rw [← Nat.pow_add]; congr 1; omega
    have hcanonical : Canonical (magnitude * 2 ^ (52 - bits)) (1022 + bits) :=
      ⟨hhigh, by unfold maxExponent; omega, .inl hlow⟩
    refine ⟨finite (decide (integer < 0)) _ _ hcanonical, rfl, ?_⟩
    have hshift : (magnitude * 2 ^ (52 - bits)) <<< (1022 + bits) = magnitude * unitsPerOne := by
      rw [Nat.shiftLeft_eq, unitsPerOne, Nat.one_shiftLeft, Nat.mul_assoc, ← Nat.pow_add]
      congr 2
      omega
    rw [units, hshift, signed, Nat.cast_mul]
    -- The sign of the integer goes in front of its magnitude again.
    by_cases hnegative : integer < 0
    · rw [if_pos (decide_eq_true hnegative), ← Int.neg_mul]
      congr 1
      omega
    · rw [if_neg (by simpa using hnegative)]
      congr 1
      omega

theorem ofInt_of_lt {integer : Int} (h : integer.natAbs < mantissaBound) :
    (ofInt integer).isFinite = true ∧ (ofInt integer).units = integer * unitsPerOne := by
  obtain ⟨number, hfinite, hunits⟩ := exists_units_of_lt h
  by_cases hzero : integer = 0
  · rw [hzero, ofInt_zero, Int.zero_mul]
    exact ⟨rfl, rfl⟩
  · rw [ofInt_of_units hzero hunits]
    exact ⟨hfinite, hunits⟩

end Binary64

end Logbook
