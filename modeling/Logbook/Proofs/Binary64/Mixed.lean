import Logbook.Proofs.Binary64.Monotone
import Logbook.Proofs.Value.Order
import Mathlib.Data.EReal.Basic

/-!
# An integer and a double

Comparing an integer of 64 bits with a double is exact: it gives the order of the two as real
numbers, wherever the integer has no double of its own (`Binary64.compareInt_eq_cmp`).  The
comparison can also be made with the operations that a machine has (`Binary64.compareByCast?`).
The double is compared with the ends of the integers as they are converted, is cut to its integer
part, which is cast to an integer, and where the integers are equal the sign of the difference
between the double and its integer part decides.  The cast never meets a number that does not fit,
and the operations that round do no harm (`Binary64.compareByCast?_eq`).

## Strategy

Between the ends, the integer part is one of 64 bits as cutting is monotone.  It is a double: either
it has at most 53 bits, or the double has no fraction.  The difference is rounded, and rounding
keeps the order and the least number of units on either side of zero, so its sign is that of the
fraction.  The order in units is that of real numbers, as all are divided by one number.
-/

namespace Logbook

namespace Binary64

/-! ## Real numbers -/

/-- The number one is so many times doubled a unit. -/
def unitBits : Nat := 1074

theorem unitsPerOne_eq : unitsPerOne = 2 ^ unitBits := by
  rw [← Nat.one_shiftLeft]
  rfl

/-- The real number that a double stands for, or an infinity; not-a-number stands for none. -/
noncomputable def real? : Binary64 → Option EReal
  | nan _ => none
  | infinite negative => some (if negative then ⊥ else ⊤)
  | finite negative mantissa exponent _ =>
      some (((if negative then -1 else 1) * mantissa * (2 : ℝ) ^ (exponent - unitBits : ℤ) : ℝ))

theorem natAbs_signed (negative : Bool) (magnitude : Nat) :
    (signed negative magnitude).natAbs = magnitude := by
  cases negative <;> simp [signed]

theorem real?_finite {number : Binary64} (h : number.isFinite = true) :
    number.real? = some ((number.units / 2 ^ unitBits : ℝ) : EReal) := by
  cases number with
  | finite negative mantissa exponent canonical =>
    have hpower : (2 : ℝ) ^ (exponent - unitBits : ℤ) = 2 ^ exponent / 2 ^ unitBits := by
      rw [zpow_sub₀ two_ne_zero, zpow_natCast, zpow_natCast]
    have hunits : ((finite negative mantissa exponent canonical).units : ℝ) =
        (if negative then -1 else 1) * mantissa * 2 ^ exponent := by
      rw [units, Nat.shiftLeft_eq]
      cases negative <;> simp [signed]
    rw [real?, hpower, hunits, mul_div_assoc]
  | _ => cases h

/-- **Comparing an integer with a double gives their order as real numbers.** -/
theorem compareInt_eq_cmp (integer : Int64) {number : Binary64} {real : EReal}
    (hreal : number.real? = some real) :
    number.compareInt integer = cmp ((integer.toInt : ℝ) : EReal) real := by
  cases number with
  | nan negative => cases hreal
  | infinite negative =>
    obtain rfl := Option.some.inj hreal
    cases negative with
    | false => exact ((cmp_eq_lt_iff _ _).mpr (EReal.coe_lt_top _)).symm
    | true => exact ((cmp_eq_gt_iff _ _).mpr (EReal.bot_lt_coe _)).symm
  | finite negative mantissa exponent canonical =>
    rw [real?_finite rfl] at hreal
    obtain rfl := Option.some.inj hreal
    rw [compareInt_eq]
    generalize (finite negative mantissa exponent canonical).units = units
    have hone : (unitsPerOne : ℝ) = 2 ^ unitBits := by
      rw [unitsPerOne_eq, Nat.cast_pow, Nat.cast_ofNat]
    have hpos : (0 : ℝ) < 2 ^ unitBits := by positivity
    calc compare (integer.toInt * unitsPerOne) units
        = cmp (integer.toInt * unitsPerOne) units := (cmp_eq_compare _ _).symm
      _ = cmp ((integer.toInt * unitsPerOne : ℤ) : ℝ) (units : ℝ) :=
          (Int.cast_strictMono.cmp_map_eq _ _).symm
      _ = cmp (integer.toInt * 2 ^ unitBits : ℝ) (units / 2 ^ unitBits * 2 ^ unitBits) := by
          rw [div_mul_cancel₀ _ hpos.ne', Int.cast_mul, Int.cast_natCast, hone]
      _ = cmp (integer.toInt : ℝ) (units / 2 ^ unitBits) := cmp_mul_pos_right hpos _ _
      _ = _ := (EReal.coe_strictMono.cmp_map_eq _ _).symm

/-! ## Operations of a machine -/

/-- A double without its fraction. -/
def cut : Binary64 → Binary64
  | number@(finite negative ..) =>
      if number.truncate = 0 then zero negative else ofInt number.truncate
  | number => number

/-- The integer of 64 bits that the integer part of a double is, if it is one. -/
def cast? (number : Binary64) : Option Int64 :=
  if number.isFinite then Integer.int64? number.truncate else none

/-- The order of an integer and a double by operations on doubles and a cast.  There is none if
the number that is cast does not fit. -/
def compareByCast? (integer : Int64) (number : Binary64) : Option Ordering :=
  if number.isNaN then some (if number.isNegative then .gt else .lt)
  else if (number.compare? (ofInt Int64.maxValue.toInt)).any (· != .lt) then some .lt
  else if number.compare? (ofInt Int64.minValue.toInt) = some .lt then some .gt
  else
    let whole := number.cut
    whole.cast?.map fun cast =>
      (compare integer.toInt cast.toInt).then
        (((zero false).compare? (number - whole)).getD .eq)

/-- Finite doubles are in the order of their units. -/
theorem compare?_of_isFinite {left right : Binary64} (hleft : left.isFinite = true)
    (hright : right.isFinite = true) :
    left.compare? right = some (compare left.units right.units) := by
  cases left with
  | finite =>
    cases right with
    | finite => rfl
    | _ => cases hright
  | _ => cases hleft

/-- The largest integer is converted to the number above it, the least one as it is. -/
theorem ofInt_ends :
    ((ofInt Int64.maxValue.toInt).isFinite = true ∧
      (ofInt Int64.maxValue.toInt).units = Integer.int64Bound * unitsPerOne) ∧
    (ofInt Int64.minValue.toInt).isFinite = true ∧
      (ofInt Int64.minValue.toInt).units = -Integer.int64Bound * unitsPerOne := by
  decide +kernel

/-! ## The integer part -/

/-- A double whose integer part has more than 53 bits has no fraction. -/
theorem truncate_mul_of_large {number : Binary64} (hfinite : number.isFinite = true)
    (h : mantissaBound ≤ number.truncate.natAbs) :
    number.truncate * unitsPerOne = number.units := by
  cases number with
  | finite negative mantissa exponent canonical =>
    have hunits : (finite negative mantissa exponent canonical).units.natAbs =
        mantissa * 2 ^ exponent := by
      rw [units, natAbs_signed, Nat.shiftLeft_eq]
    have hexponent : unitBits < exponent := by
      by_contra hle
      have hpower : 2 ^ exponent ≤ 2 ^ unitBits :=
        Nat.pow_le_pow_right Nat.two_pos (Nat.not_lt.mp hle)
      have hsmall : (finite negative mantissa exponent canonical).truncate.natAbs ≤ mantissa := by
        rw [truncate, Int.natAbs_tdiv, Int.natAbs_natCast, hunits, unitsPerOne_eq]
        apply Nat.div_le_of_le_mul
        rw [Nat.mul_comm (2 ^ unitBits)]
        exact Nat.mul_le_mul_left _ hpower
      have hmantissa := canonical.1
      omega
    refine Int.tdiv_mul_cancel (Int.natCast_dvd.mpr ?_)
    rw [hunits, unitsPerOne_eq]
    exact (Nat.pow_dvd_pow 2 hexponent.le).mul_left _
  | _ => cases hfinite

/-- The integer part of a double is a double. -/
theorem cut_spec {number : Binary64} (h : number.isFinite = true) :
    number.cut.isFinite = true ∧ number.cut.units = number.truncate * unitsPerOne := by
  cases number with
  | finite negative mantissa exponent canonical =>
    rw [cut]
    set number := finite negative mantissa exponent canonical
    split
    · next hzero =>
      rw [hzero, Int.zero_mul]
      exact ⟨rfl, by cases negative <;> rfl⟩
    · next hne =>
      rcases Nat.lt_or_ge number.truncate.natAbs mantissaBound with hlt | hge
      · exact ofInt_of_lt hlt
      · have hwhole : number.truncate * unitsPerOne = number.units :=
          truncate_mul_of_large rfl hge
        rw [ofInt_of_units hne hwhole.symm]
        exact ⟨rfl, hwhole.symm⟩
  | _ => cases h

/-- Between the ends of the integers the integer part is one of 64 bits. -/
theorem truncate_bounds {number : Binary64}
    (hlarge : number.units < Integer.int64Bound * unitsPerOne)
    (hsmall : -Integer.int64Bound * unitsPerOne ≤ number.units) :
    -Integer.int64Bound ≤ number.truncate ∧ number.truncate < Integer.int64Bound := by
  have hpos := unitsPerOne_pos
  constructor
  · rw [← Int.mul_tdiv_cancel (-Integer.int64Bound) hpos.ne']
    exact Int.tdiv_le_tdiv hpos hsmall
  · rcases Int.le_total 0 number.units with hnonneg | hnonpos
    · have hle : number.truncate * unitsPerOne ≤ number.units := by
        rw [Int.mul_comm]
        exact Int.mul_tdiv_self_le hnonneg
      exact Int.lt_of_mul_lt_mul_right (Int.lt_of_le_of_lt hle hlarge) hpos.le
    · calc number.truncate ≤ Int.tdiv 0 unitsPerOne := Int.tdiv_le_tdiv hpos hnonpos
        _ < Integer.int64Bound := by rw [Int.zero_tdiv]; decide

/-- Between the ends of the integers the number that is cast fits. -/
theorem exists_cast? {number : Binary64} (hfinite : number.isFinite = true)
    (hlarge : number.units < Integer.int64Bound * unitsPerOne)
    (hsmall : -Integer.int64Bound * unitsPerOne ≤ number.units) :
    ∃ cast : Int64, number.cut.cast? = some cast ∧ cast.toInt = number.truncate := by
  obtain ⟨hcut, hunits⟩ := cut_spec hfinite
  have htruncate : number.cut.truncate = number.truncate := by
    rw [truncate, hunits, Int.mul_tdiv_cancel _ unitsPerOne_pos.ne']
  obtain ⟨hle, hlt⟩ := truncate_bounds hlarge hsmall
  refine ⟨Int64.ofInt number.truncate, ?_, Int64.toInt_ofInt_of_le hle hlt⟩
  rw [cast?, if_pos hcut, htruncate, Integer.int64?, if_pos (by simp [hle, hlt])]

/-! ## The fraction -/

/-- Rounding does not change the sign. -/
theorem compare_zero_roundUnits (units : Int) :
    compare 0 (roundUnits units) = compare 0 units := by
  rcases lt_trichotomy units 0 with hneg | rfl | hpos
  · have hround : roundUnits units ≤ roundUnits (-1) := roundUnits_mono (by omega)
    have hleast : roundUnits (-1) = -1 := by decide
    rw [compare_gt_iff_gt.mpr hneg, compare_gt_iff_gt]
    omega
  · rfl
  · have hround : roundUnits 1 ≤ roundUnits units := roundUnits_mono (by omega)
    have hleast : roundUnits 1 = 1 := by decide
    rw [compare_lt_iff_lt.mpr hpos, compare_lt_iff_lt]
    omega

/-- The sum of finite doubles is rounded, if it is not too large. -/
theorem add_of_isFinite {left right : Binary64} (hleft : left.isFinite = true)
    (hright : right.isFinite = true)
    (hstep : stepExponent (left.units + right.units).natAbs < maxExponent) :
    (left.add right).isFinite = true ∧
      (left.add right).units = roundUnits (left.units + right.units) := by
  cases left with
  | finite leftNegative leftMantissa leftExponent leftCanonical =>
    cases right with
    | finite rightNegative rightMantissa rightExponent rightCanonical =>
      rw [add]
      split
      · next hzero =>
        rw [beq_iff_eq] at hzero
        rw [hzero]
        exact ⟨rfl, by cases leftNegative <;> cases rightNegative <;> rfl⟩
      · have hfinite (negative : Bool) := isFinite_ofUnits negative hstep
        exact ⟨hfinite _, units_ofUnits (hfinite _)⟩
    | _ => cases hright
  | _ => cases hleft

/-- Subtracting is adding the opposite number. -/
theorem sub_of_isFinite {left right : Binary64} (hleft : left.isFinite = true)
    (hright : right.isFinite = true)
    (hstep : stepExponent (left.units - right.units).natAbs < maxExponent) :
    (left - right).isFinite = true ∧
      (left - right).units = roundUnits (left.units - right.units) := by
  have hneg : right.neg.isFinite = true ∧ right.neg.units = -right.units := by
    cases right with
    | finite negative => cases negative <;> simp [neg, isFinite, units, signed]
    | _ => cases hright
  have hsub : left - right = left.add right.neg := by
    cases left with
    | finite =>
      cases right with
      | finite => rfl
      | _ => cases hright
    | _ => cases hleft
  rw [Int.sub_eq_add_neg, ← hneg.2] at hstep ⊢
  rw [hsub]
  exact add_of_isFinite hleft hneg.1 hstep

/-- The sign of the difference between a double and its integer part is that of the fraction. -/
theorem compare?_sub_cut {number : Binary64} (hfinite : number.isFinite = true) :
    (zero false).compare? (number - number.cut) =
      some (compare (number.truncate * unitsPerOne) number.units) := by
  obtain ⟨hcut, hunits⟩ := cut_spec hfinite
  have hfraction : number.units - number.cut.units = number.units.tmod unitsPerOne := by
    have hparts := Int.tmod_add_tdiv_mul number.units unitsPerOne
    rw [hunits, truncate]
    omega
  have hstep : stepExponent (number.units - number.cut.units).natAbs < maxExponent := by
    have hbelow : (number.units - number.cut.units).natAbs ≤ unitsPerOne := by
      have hupper := Int.tmod_lt_of_pos number.units unitsPerOne_pos
      have hlower := Int.lt_tmod_of_pos number.units unitsPerOne_pos
      omega
    exact Nat.lt_of_le_of_lt (stepExponent_mono hbelow) (by decide +kernel)
  obtain ⟨hdifference, hrounded⟩ := sub_of_isFinite hfinite hcut hstep
  rw [compare?_of_isFinite rfl hdifference, hrounded, hunits]
  have hzero : (zero false).units = 0 := rfl
  rw [hzero, compare_zero_roundUnits]
  congr 1
  rcases lt_trichotomy (number.truncate * unitsPerOne) number.units with hlt | heq | hgt
  · rw [compare_lt_iff_lt.mpr hlt, compare_lt_iff_lt]
    omega
  · rw [compare_eq_iff_eq.mpr heq, compare_eq_iff_eq]
    omega
  · rw [compare_gt_iff_gt.mpr hgt, compare_gt_iff_gt]
    omega

/-! ## Both comparisons -/

/-- An infinity is beyond every finite double. -/
theorem compare?_infinite (negative : Bool) {right : Binary64} (hright : right.isFinite = true) :
    (infinite negative).compare? right = some (if negative then .lt else .gt) := by
  cases right with
  | finite => cases negative <;> rfl
  | _ => cases hright

theorem compareInt_of_isFinite (integer : Int64) {number : Binary64}
    (h : number.isFinite = true) :
    number.compareInt integer =
      if Integer.int64Bound * unitsPerOne ≤ number.units then .lt
      else if number.units < -Integer.int64Bound * unitsPerOne then .gt
      else (compare integer.toInt number.truncate).then
        (compare (number.truncate * unitsPerOne) number.units) := by
  cases number with
  | finite => rfl
  | _ => cases h

/-- Where the number is finite, the tests against the converted ends are tests of its units, and
behind them the cast fits and the difference has the sign of the fraction. -/
theorem compareByCast?_of_isFinite (integer : Int64) {number : Binary64}
    (h : number.isFinite = true) :
    compareByCast? integer number = some (number.compareInt integer) := by
  obtain ⟨⟨hmax, hmaxUnits⟩, hmin, hminUnits⟩ := ofInt_ends
  have hlarge : (number.compare? (ofInt Int64.maxValue.toInt)).any (· != .lt) = true ↔
      Integer.int64Bound * unitsPerOne ≤ number.units := by
    rw [compare?_of_isFinite h hmax, hmaxUnits, Option.any_some, bne_iff_ne, ne_eq,
      compare_lt_iff_lt, Int.not_lt]
  have hsmall : number.compare? (ofInt Int64.minValue.toInt) = some .lt ↔
      number.units < -Integer.int64Bound * unitsPerOne := by
    rw [compare?_of_isFinite h hmin, hminUnits, Option.some_inj, compare_lt_iff_lt]
  rw [compareByCast?, if_neg (by rw [isNaN_of_isFinite h]; exact Bool.false_ne_true),
    compareInt_of_isFinite integer h]
  split
  · next htest => rw [if_pos (hlarge.mp htest)]
  · next hbelow =>
    rw [if_neg (mt hlarge.mpr hbelow)]
    split
    · next htest => rw [if_pos (hsmall.mp htest)]
    · next habove =>
      obtain ⟨cast, hcast, hwhole⟩ := exists_cast? h (Int.not_le.mp (mt hlarge.mpr hbelow))
        (Int.not_lt.mp (mt hsmall.mpr habove))
      dsimp only
      rw [if_neg (mt hsmall.mpr habove), hcast, compare?_sub_cut h, Option.map_some, hwhole,
        Option.getD_some]

/-- **The comparison by a cast never fails, and gives what the exact one gives.** -/
theorem compareByCast?_eq (integer : Int64) (number : Binary64) :
    compareByCast? integer number = some (number.compareInt integer) := by
  obtain ⟨⟨hmax, -⟩, hmin, -⟩ := ofInt_ends
  cases number with
  | nan negative => cases negative <;> rfl
  | infinite negative =>
    unfold compareByCast?
    rw [compare?_infinite negative hmax, compare?_infinite negative hmin]
    cases negative <;> rfl
  | finite => exact compareByCast?_of_isFinite integer rfl

/-- **Comparing an integer with a double is exact.**  Whatever number or infinity the double stands
for, the comparison gives the order of the two as real numbers, and so it does with the operations
of a machine, whose cast never meets a number that does not fit. -/
theorem compareInt_exact (integer : Int64) {number : Binary64} (hnumber : number.isNaN = false) :
    (∃ real, number.real? = some real ∧
      number.compareInt integer = cmp ((integer.toInt : ℝ) : EReal) real) ∧
    compareByCast? integer number = some (number.compareInt integer) := by
  refine ⟨?_, compareByCast?_eq integer number⟩
  cases number with
  | nan => cases hnumber
  | infinite => exact ⟨_, rfl, compareInt_eq_cmp integer rfl⟩
  | finite => exact ⟨_, rfl, compareInt_eq_cmp integer rfl⟩

/-- Integers next to doubles: at both ends of the integers, above 53 bits, next to a negative
fraction, at the negative zero, below the least double above zero, and below an infinity. -/
theorem compareInt_exact_next_to_doubles :
    let inputs : List (Int64 × Binary64 × Ordering) :=
      [(Int64.maxValue, ofInt Int64.maxValue.toInt, .lt),
        (Int64.minValue, ofInt Int64.minValue.toInt, .eq),
        (9007199254740993, ofInt 9007199254740992, .gt), (-1, ofDecimal true 15 (-1), .gt),
        (0, zero true, .eq), (0, ofParts false 1 0, .lt), (Int64.maxValue, infinite false, .lt)]
    inputs.Forall fun input => input.2.1.isNaN = false ∧
      (∃ real, input.2.1.real? = some real ∧
        cmp ((input.1.toInt : ℝ) : EReal) real = input.2.2) ∧
      compareByCast? input.1 input.2.1 = some input.2.2 := by
  intro inputs
  rw [List.forall_iff_forall_mem]
  intro input hinput
  have hnumber : input.2.1.isNaN = false := by
    revert input
    decide +kernel
  have horder : input.2.1.compareInt input.1 = input.2.2 := by
    revert input
    decide +kernel
  obtain ⟨⟨real, hreal, hcmp⟩, hcast⟩ := compareInt_exact input.1 hnumber
  rw [horder] at hcmp hcast
  exact ⟨hnumber, ⟨real, hreal, hcmp.symm⟩, hcast⟩

end Binary64

end Logbook
