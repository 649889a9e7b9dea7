import Logbook.Proofs.Binary64.Monotone
import Logbook.Proofs.Query.Comparison

/-!
# Numbers as doubles

Where numbers are compared as doubles, an integer is converted first.  This is an order of its
own: different numbers may be equal in it, but a better number never becomes a worse one
(`Value.doubleOrder_of_order`).

## Strategy

A number has a position, its class and its exact number of units, and numbers are in the order of
their positions (`Value.order_eq_comparePositions`).  Converting an integer rounds its units
(`Value.position_asDouble`), and rounding is monotone.  What the orders have to do with each other
is then arithmetic.
-/

namespace Logbook

namespace Value

/-- An integer as the double nearest to it; other values stay as they are. -/
def asDouble : Value → Value
  | int number => float (.ofInt number.toInt)
  | value => value

/-- The order of values whose integers are converted to doubles first. -/
def doubleOrder (left right : Value) : Ordering := left.asDouble.order right.asDouble

/-- The class of a number and its exact number of units. -/
def position : Value → Int × Int
  | int number => (0, number.toInt * Binary64.unitsPerOne)
  | float number => (number.rank, number.units)
  | _ => (0, 0)

/-- The order of positions, by class and then by units. -/
def comparePositions (left right : Int × Int) : Ordering :=
  (compare left.1 right.1).then (compare left.2 right.2)

theorem comparePositions_eq_lt {left right : Int × Int} : comparePositions left right = .lt ↔
    left.1 < right.1 ∨ left.1 = right.1 ∧ left.2 < right.2 := by
  rw [comparePositions, Ordering.then_eq_lt, compare_lt_iff_lt, compare_eq_iff_eq,
    compare_lt_iff_lt]

theorem comparePositions_eq_gt {left right : Int × Int} : comparePositions left right = .gt ↔
    right.1 < left.1 ∨ left.1 = right.1 ∧ right.2 < left.2 := by
  rw [comparePositions, Ordering.then_eq_gt, compare_gt_iff_gt, compare_eq_iff_eq,
    compare_gt_iff_gt]

theorem comparePositions_eq_eq {left right : Int × Int} : comparePositions left right = .eq ↔
    left.1 = right.1 ∧ left.2 = right.2 := by
  rw [comparePositions, Ordering.then_eq_eq, compare_eq_iff_eq, compare_eq_iff_eq]

variable {left right other value : Value} {better : Ordering}

theorem order_of_isNaN_eq_false {left right : Binary64} (hleft : left.isNaN = false)
    (hright : right.isNaN = false) :
    left.order right = (compare left.rank right.rank).then (compare left.units right.units) := by
  have hsign {number : Binary64} (h : number.isNaN = false) :
      number.isNaN = true → number.isNegative = false := by simp [h]
  exact order_eq_of_sign (hsign hleft) (hsign hright)

/-- Numbers are in the order of their positions. -/
theorem order_eq_comparePositions (hleft : left.isNumber = true) (hright : right.isNumber = true) :
    left.order right = comparePositions left.position right.position := by
  cases left with
  | int integer =>
    cases right with
    | int other => simp [order, position, comparePositions, Binary64.compare_mul_unitsPerOne]
    | float number => exact Binary64.compareInt_eq integer number
    | _ => cases hright
  | float number =>
    cases right with
    | int integer => exact Binary64.swap_compareInt_eq integer number
    | float other =>
      have hnumber : number.isNaN = false := by simpa [isNumber] using hleft
      have hother : other.isNaN = false := by simpa [isNumber] using hright
      exact order_of_isNaN_eq_false hnumber hother
    | _ => cases hright
  | _ => cases hleft

theorem isNumber_iff : value.isNumber = true ↔
    ∃ number, value.toBinary64? = some number ∧ number.isNaN = false := by
  cases value with
  | int number => simp [isNumber, toBinary64?, Binary64.isNaN_ofInt]
  | float number => simp [isNumber, toBinary64?]
  | _ => simp [isNumber, toBinary64?]

/-- What equals a number is a number. -/
theorem isNumber_of_order_eq (hright : right.isNumber = true) (h : left.order right = .eq) :
    left.isNumber = true := by
  rw [order_eq_iff_same] at h
  cases left with
  | int integer => rfl
  | float number =>
    cases number with
    | nan negative =>
      cases right with
      | int integer => cases negative <;> cases h
      | float other =>
        have hother : other.isNaN = false := by simpa [isNumber] using hright
        have hnan : (Binary64.nan negative).isNaN = true := rfl
        simp [same, Binary64.sameNumber, Binary64.compare?, hother, hnan] at h
      | _ => cases hright
    | _ => rfl
  | _ => cases right <;> simp_all [same, isNumber]

theorem isNumber_asDouble (value : Value) : value.asDouble.isNumber = value.isNumber := by
  cases value with
  | int number => simp [asDouble, isNumber, Binary64.isNaN_ofInt]
  | _ => rfl

theorem asDouble_eq {number : Binary64} (h : value.toBinary64? = some number) :
    value.asDouble = float number := by
  cases value with
  | int integer =>
    cases h
    rfl
  | float double =>
    cases h
    rfl
  | _ => cases h

/-- Converting an integer to a double rounds its units. -/
theorem position_asDouble (h : value.isNumber = true) :
    value.asDouble.position = (value.position.1, Binary64.roundUnits value.position.2) := by
  cases value with
  | int number =>
    obtain ⟨hfinite, hunits⟩ := Binary64.ofInt_int64 number
    have hrank : (Binary64.ofInt number.toInt).rank = 0 := by
      cases hnumber : Binary64.ofInt number.toInt with
      | finite => rfl
      | _ =>
        rw [hnumber] at hfinite
        cases hfinite
    exact Prod.ext hrank hunits
  | float number => exact Prod.ext rfl (Binary64.roundUnits_units number).symm
  | _ => cases h

/-- An integer of at most 53 bits is not rounded. -/
theorem position_asDouble_of_small
    (h : ∀ integer, value = int integer → integer.toInt.natAbs < Binary64.mantissaBound) :
    value.asDouble.position = value.position := by
  cases value with
  | int integer =>
    have hrounded := (Binary64.ofInt_int64 integer).2
    rw [position_asDouble rfl]
    exact Prod.ext rfl (hrounded.symm.trans (Binary64.ofInt_of_lt (h integer rfl)).2)
  | _ => rfl

theorem doubleOrder_eq (hleft : left.isNumber = true) (hright : right.isNumber = true) :
    left.doubleOrder right = comparePositions left.asDouble.position right.asDouble.position :=
  order_eq_comparePositions (by rwa [isNumber_asDouble]) (by rwa [isNumber_asDouble])

/-- The order of two numbers is not the same both ways, unless they are equal. -/
theorem doubleOrder_ne (hbetter : better = .lt ∨ better = .gt)
    (h : left.doubleOrder right = better) :
    right.doubleOrder left ≠ better ∧ right.doubleOrder left ≠ .eq := by
  have hswap : right.doubleOrder left = (left.doubleOrder right).swap := order_swap _ _
  rw [hswap, h]
  rcases hbetter with rfl | rfl <;> exact ⟨nofun, nofun⟩

theorem doubleOrder_self (hbetter : better = .lt ∨ better = .gt) (value : Value) :
    value.doubleOrder value ≠ better :=
  fun h => (doubleOrder_ne hbetter h).1 h

/-- What is better than another is better than all that are not better than that. -/
theorem doubleOrder_of_ne (hbetter : better = .lt ∨ better = .gt) (hleft : left.isNumber = true)
    (hright : right.isNumber = true) (hother : other.isNumber = true)
    (h : left.doubleOrder right = better) (hne : other.doubleOrder right ≠ better) :
    left.doubleOrder other = better := by
  rw [doubleOrder_eq hleft hright] at h
  rw [doubleOrder_eq hother hright] at hne
  rw [doubleOrder_eq hleft hother]
  rcases hbetter with rfl | rfl
  · rw [ne_eq, comparePositions_eq_lt] at hne
    rw [comparePositions_eq_lt] at h ⊢
    omega
  · rw [ne_eq, comparePositions_eq_gt] at hne
    rw [comparePositions_eq_gt] at h ⊢
    omega

theorem isNumber_of_doubleOrder_eq (hright : right.isNumber = true)
    (h : left.doubleOrder right = .eq) : left.isNumber = true := by
  rw [← isNumber_asDouble] at hright ⊢
  exact isNumber_of_order_eq hright h

/-- Converting integers makes no better number a worse one. -/
theorem doubleOrder_of_order (hbetter : better = .lt ∨ better = .gt) (hleft : left.isNumber = true)
    (hright : right.isNumber = true) (h : left.order right = better) :
    left.doubleOrder right = better ∨ left.doubleOrder right = .eq := by
  rw [order_eq_comparePositions hleft hright] at h
  rw [doubleOrder_eq hleft hright, position_asDouble hleft, position_asDouble hright]
  rcases hbetter with rfl | rfl
  · rw [comparePositions_eq_lt] at h
    rw [comparePositions_eq_lt, comparePositions_eq_eq]
    have hround (hle : left.position.2 ≤ right.position.2) := Binary64.roundUnits_mono hle
    dsimp only
    omega
  · rw [comparePositions_eq_gt] at h
    rw [comparePositions_eq_gt, comparePositions_eq_eq]
    have hround (hle : right.position.2 ≤ left.position.2) := Binary64.roundUnits_mono hle
    dsimp only
    omega

/-- Converting integers keeps equal numbers equal. -/
theorem doubleOrder_of_order_eq (hleft : left.isNumber = true) (hright : right.isNumber = true)
    (h : left.order right = .eq) : left.doubleOrder right = .eq := by
  rw [order_eq_comparePositions hleft hright, comparePositions_eq_eq] at h
  rw [doubleOrder_eq hleft hright, position_asDouble hleft, position_asDouble hright, h.1, h.2,
    comparePositions_eq_eq]
  exact ⟨rfl, rfl⟩

end Value

end Logbook
