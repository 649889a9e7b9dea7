import Logbook.Proofs.Value.Meaning
import Mathlib.Tactic.Linarith

/-!
# The order of values

`Value.order` compares numbers exactly, also an integer with a double, lists and maps by
their first difference, and takes any two not-a-numbers for equal.  It places a
not-a-number by its sign all the same: a negative one below and a positive one above all
numbers.  Among values whose not-a-numbers have one sign this is a total order
(`order_trans_of_nanSign`).  Where both signs meet it is none, because the two are equal
and yet lie on different sides of every number (`order_between_nans`).

## Strategy

A value gets a code, a list of symbols that are compared from left to right, in which no
code begins another.  If all not-a-numbers have one sign, comparing values is comparing
codes (`compareCodes_append`), and a lexicographic order is total because that of the
symbols is.
-/

namespace Logbook

/-! ## An integer and a double -/

namespace Binary64

/-- An integer is compared with a fraction by the integer part first. -/
theorem compare_tdiv (integer units one : Int) (hone : 0 < one) :
    (compare integer (units.tdiv one)).then (compare (units.tdiv one * one) units) =
      compare (integer * one) units := by
  have hparts : units.tmod one + units.tdiv one * one = units := Int.tmod_add_tdiv_mul units one
  have hupper : units.tmod one < one := Int.tmod_lt_of_pos units hone
  have hlower : -one < units.tmod one := Int.lt_tmod_of_pos units hone
  set whole := units.tdiv one
  rcases lt_trichotomy integer whole with hlt | heq | hgt
  · -- A smaller integer is smaller by at least one, more than a fraction can be.
    have hstep : (integer + 1) * one ≤ whole * one := Int.mul_le_mul_of_nonneg_right hlt hone.le
    have hunits : integer * one < units := by linarith
    rw [compare_lt_iff_lt.mpr hlt, compare_lt_iff_lt.mpr hunits]
    rfl
  · rw [heq, compare_eq_iff_eq.mpr rfl]
    rfl
  · have hstep : (whole + 1) * one ≤ integer * one := Int.mul_le_mul_of_nonneg_right hgt hone.le
    have hunits : units < integer * one := by linarith
    rw [compare_gt_iff_gt.mpr hgt, compare_gt_iff_gt.mpr hunits]
    rfl

/-- An integer and a double are compared by class and, if the double is finite, in units. -/
theorem compareInt_eq (integer : Int64) (number : Binary64) :
    number.compareInt integer =
      (compare 0 number.rank).then (compare (integer.toInt * unitsPerOne) number.units) := by
  cases number with
  | nan negative => cases negative <;> rfl
  | infinite negative => cases negative <;> rfl
  | finite negative mantissa exponent canonical =>
    have hpos := unitsPerOne_pos
    have hbelow : integer.toInt < Integer.int64Bound := integer.toInt_lt
    have habove : -Integer.int64Bound ≤ integer.toInt := integer.le_toInt
    have hrank : compare (0 : Int) (finite negative mantissa exponent canonical).rank = .eq := rfl
    simp only [compareInt]
    rw [hrank]
    show _ = compare _ _
    split
    · next hlarge =>
      have hlt := Int.mul_lt_mul_of_pos_right hbelow hpos
      exact (compare_lt_iff_lt.mpr (hlt.trans_le hlarge)).symm
    · split
      · next hsmall =>
        have hle := Int.mul_le_mul_of_nonneg_right habove hpos.le
        exact (compare_gt_iff_gt.mpr (hsmall.trans_le hle)).symm
      · exact compare_tdiv _ _ _ hpos

theorem swap_compareInt_eq (integer : Int64) (number : Binary64) :
    (number.compareInt integer).swap =
      (compare number.rank 0).then (compare number.units (integer.toInt * unitsPerOne)) := by
  rw [compareInt_eq, Ordering.swap_then, ← Std.OrientedOrd.eq_swap, ← Std.OrientedOrd.eq_swap]

theorem compare_mul_unitsPerOne (left right : Int) :
    compare (left * unitsPerOne) (right * unitsPerOne) = compare left right := by
  have hpos := unitsPerOne_pos
  rcases lt_trichotomy left right with hlt | rfl | hgt
  · rw [compare_lt_iff_lt.mpr hlt, compare_lt_iff_lt.mpr (Int.mul_lt_mul_of_pos_right hlt hpos)]
  · rw [compare_eq_iff_eq.mpr rfl, compare_eq_iff_eq.mpr rfl]
  · rw [compare_gt_iff_gt.mpr hgt, compare_gt_iff_gt.mpr (Int.mul_lt_mul_of_pos_right hgt hpos)]

theorem isNaN_eq (number : Binary64) : number.isNaN = (number.rank.natAbs == 2) := by
  cases number with
  | nan negative => cases negative <;> rfl
  | infinite negative => cases negative <;> rfl
  | finite => rfl

/-- Two doubles are equal in the order exactly when they are the same number. -/
theorem order_eq_iff_sameNumber (left right : Binary64) :
    left.order right = .eq ↔ left.sameNumber right = true := by
  unfold Binary64.order
  split
  · next hsame => simp [hsame]
  · next hdiffers =>
    refine iff_of_false (fun heq => hdiffers ?_) hdiffers
    obtain ⟨hrank, hunits⟩ := Ordering.then_eq_eq.mp heq
    rw [compare_eq_iff_eq] at hrank hunits
    -- One class and as many units leave nothing in which numbers could differ.
    have hnan : left.isNaN = right.isNaN := by rw [isNaN_eq, isNaN_eq, hrank]
    cases hleft : left.isNaN <;> simp [sameNumber, compare?, ← hnan, hleft, hrank, hunits]

theorem sameNumber_comm (left right : Binary64) :
    left.sameNumber right = right.sameNumber left := by
  rw [Bool.eq_iff_iff, sameNumber_iff, sameNumber_iff, eq_comm]

theorem order_swap (left right : Binary64) : right.order left = (left.order right).swap := by
  unfold Binary64.order
  rw [sameNumber_comm right left]
  split
  · rfl
  · rw [Ordering.swap_then, ← Std.OrientedOrd.eq_swap, ← Std.OrientedOrd.eq_swap]

end Binary64

/-! ## Codes -/

instance : Std.LawfulEqOrd Path.Step where
  compare_self {step} := by
    cases step with
    | entry name => exact Std.ReflOrd.compare_self (a := name)
    | _ => rfl
  eq_of_compare {left right} h := by
    cases left with
    | entry name =>
      cases right with
      | entry other => exact congrArg Path.Step.entry (Std.LawfulEqOrd.eq_of_compare h)
      | _ => cases h
    | _ => cases right <;> first | rfl | cases h

instance : Std.OrientedOrd Path.Step where
  eq_swap {left right} := by
    cases left <;> cases right <;> first | rfl | exact Std.OrientedOrd.eq_swap (α := String)

theorem Path.order_swap (left right : Path) : right.order left = (left.order right).swap :=
  Std.OrientedOrd.eq_swap (α := List Path.Step)

namespace Value

/-- A symbol of a code is a number or a text. -/
structure Symbol where
  /-- The number, zero for a text. -/
  number : Int := 0
  /-- The text, empty for a number. -/
  text : String := ""
  deriving DecidableEq

namespace Symbol

/-- Symbols are ordered by number and then by text. -/
def order (left right : Symbol) : Ordering :=
  (compare left.number right.number).then (compare left.text right.text)

instance : Std.TransCmp order :=
  inferInstanceAs (Std.TransCmp (compareLex (compareOn number) (compareOn text)))

instance : Std.LawfulEqCmp order where
  eq_of_compare {left right} h := by
    obtain ⟨hnumber, htext⟩ := Ordering.then_eq_eq.mp h
    cases left
    cases right
    simp_all

end Symbol

/-- Codes are compared from left to right. -/
abbrev compareCodes : List Symbol → List Symbol → Ordering := List.compareLex Symbol.order

/-- The code of the steps of a path: each behind a one, and a zero at the end. -/
def codeOfSteps : List Path.Step → List Symbol
  | [] => [{ number := 0 }]
  | .entry name :: steps =>
      { number := 1 } :: { number := (Path.Step.entry name).rank } :: { text := name } ::
        codeOfSteps steps
  | step :: steps => { number := 1 } :: { number := step.rank } :: codeOfSteps steps

mutual

/-- The code of a value: the rank of its type, and then what it holds. -/
def code : Value → List Symbol
  | null => [{ number := 0 }]
  | bool truth => [{ number := 1 }, { number := if truth then 1 else 0 }]
  | int number =>
      [{ number := 2 }, { number := 0 }, { number := number.toInt * Binary64.unitsPerOne }]
  | float number => [{ number := 2 }, { number := number.rank }, { number := number.units }]
  | str text => [{ number := 3 }, { text }]
  | list items => { number := 4 } :: codeOfItems items
  | map entries => { number := 5 } :: codeOfEntries entries
  | artifact handle => { number := 6 } :: codeOfSteps handle.path.steps

/-- The code of the items of a list: each behind a one, and a zero at the end. -/
def codeOfItems : List Value → List Symbol
  | [] => [{ number := 0 }]
  | item :: items => { number := 1 } :: (item.code ++ codeOfItems items)

/-- The code of the entries of a map: each behind a one, and a zero at the end. -/
def codeOfEntries : List (String × Value) → List Symbol
  | [] => [{ number := 0 }]
  | (key, value) :: entries =>
      { number := 1 } :: { text := key } :: (value.code ++ codeOfEntries entries)

end

mutual

/-- Every not-a-number in a value has the given sign. -/
def NaNSign (negative : Bool) : Value → Prop
  | float number => number.isNaN = true → number.isNegative = negative
  | list items => NaNSignOfItems negative items
  | map entries => NaNSignOfEntries negative entries
  | _ => True

/-- Every not-a-number in the items of a list has the given sign. -/
def NaNSignOfItems (negative : Bool) : List Value → Prop
  | [] => True
  | item :: items => item.NaNSign negative ∧ NaNSignOfItems negative items

/-- Every not-a-number in the entries of a map has the given sign. -/
def NaNSignOfEntries (negative : Bool) : List (String × Value) → Prop
  | [] => True
  | (_, value) :: entries => value.NaNSign negative ∧ NaNSignOfEntries negative entries

end

/-! ## Comparing codes is comparing values -/

@[simp] theorem compareCodes_number (left right : Int) (lefts rights : List Symbol) :
    compareCodes ({ number := left } :: lefts) ({ number := right } :: rights) =
      (compare left right).then (compareCodes lefts rights) := by
  simp [compareCodes, List.compareLex_cons_cons, Symbol.order]

@[simp] theorem compareCodes_text (left right : String) (lefts rights : List Symbol) :
    compareCodes ({ text := left } :: lefts) ({ text := right } :: rights) =
      (compare left right).then (compareCodes lefts rights) := by
  simp [compareCodes, List.compareLex_cons_cons, Symbol.order]

theorem compareCodes_steps (left right : List Path.Step) (lefts rights : List Symbol) :
    compareCodes (codeOfSteps left ++ lefts) (codeOfSteps right ++ rights) =
      (compare left right).then (compareCodes lefts rights) := by
  induction left generalizing right with
  | nil =>
    cases right with
    | nil => simp [codeOfSteps]
    | cons step steps => cases step <;> rfl
  | cons step steps ih =>
    cases right with
    | nil => cases step <;> rfl
    | cons other others =>
      have hrest := ih others
      rw [List.compare_cons_cons, Ordering.then_assoc, ← hrest]
      cases step with
      | entry name =>
        cases other with
        | entry otherName =>
          simp only [codeOfSteps, List.cons_append, compareCodes_number, compareCodes_text]
          rfl
        | _ => rfl
      | _ => cases other <;> rfl

/-- Two doubles that are the same number have one class and as many units, unless they are
not-a-numbers of both signs. -/
theorem order_eq_of_sign {negative : Bool} {left right : Binary64}
    (hleft : left.isNaN = true → left.isNegative = negative)
    (hright : right.isNaN = true → right.isNegative = negative) :
    left.order right = (compare left.rank right.rank).then (compare left.units right.units) := by
  unfold Binary64.order
  split
  · next hsame =>
    refine Eq.symm (Ordering.then_eq_eq.mpr ?_)
    rw [compare_eq_iff_eq, compare_eq_iff_eq]
    have hmeaning := (Binary64.sameNumber_iff left right).mp hsame
    cases left <;> cases right <;>
      simp_all [Binary64.meaning, Binary64.isNaN, Binary64.isNegative, Binary64.rank,
        Binary64.units]
  · rfl

mutual

/-- Comparing the codes of two values is comparing the values, and where they are equal
what follows the codes. -/
theorem compareCodes_append {negative : Bool} (left right : Value) (hleft : left.NaNSign negative)
    (hright : right.NaNSign negative) (lefts rights : List Symbol) :
    compareCodes (left.code ++ lefts) (right.code ++ rights) =
      (left.order right).then (compareCodes lefts rights) := by
  cases left with
  | bool truth =>
    cases right with
    | bool other => cases truth <;> cases other <;> rfl
    | _ => rfl
  | int number =>
    cases right with
    | int other =>
      simp [code, order, Binary64.compare_mul_unitsPerOne]
    | float other =>
      simp [code, order, Binary64.compareInt_eq, Ordering.then_assoc]
    | _ => rfl
  | float number =>
    cases right with
    | int other =>
      simp [code, order, Binary64.swap_compareInt_eq, Ordering.then_assoc]
    | float other =>
      simp [code, order, order_eq_of_sign hleft hright, Ordering.then_assoc]
    | _ => rfl
  | str text =>
    cases right with
    | str other => simp [code, order]
    | _ => rfl
  | list items =>
    cases right with
    | list others =>
      simpa [code, order] using compareCodes_items items others hleft hright lefts rights
    | _ => rfl
  | map entries =>
    cases right with
    | map others =>
      simpa [code, order] using compareCodes_entries entries others hleft hright lefts rights
    | _ => rfl
  | artifact handle =>
    cases right with
    | artifact other =>
      simpa [code, order, Path.order] using
        compareCodes_steps handle.path.steps other.path.steps lefts rights
    | _ => rfl
  | null =>
    cases right with
    | null => simp [code, order, rank]
    | _ => rfl

theorem compareCodes_items {negative : Bool} (left right : List Value)
    (hleft : NaNSignOfItems negative left) (hright : NaNSignOfItems negative right)
    (lefts rights : List Symbol) :
    compareCodes (codeOfItems left ++ lefts) (codeOfItems right ++ rights) =
      (orderItems left right).then (compareCodes lefts rights) := by
  cases left with
  | nil =>
    cases right with
    | nil => simp [codeOfItems, orderItems]
    | cons other others => rfl
  | cons item items =>
    cases right with
    | nil => rfl
    | cons other others =>
      have hitem := compareCodes_append item other hleft.1 hright.1 (codeOfItems items ++ lefts)
        (codeOfItems others ++ rights)
      have hrest := compareCodes_items items others hleft.2 hright.2 lefts rights
      simp [codeOfItems, orderItems, List.append_assoc, hitem, hrest, Ordering.then_assoc]

theorem compareCodes_entries {negative : Bool} (left right : List (String × Value))
    (hleft : NaNSignOfEntries negative left) (hright : NaNSignOfEntries negative right)
    (lefts rights : List Symbol) :
    compareCodes (codeOfEntries left ++ lefts) (codeOfEntries right ++ rights) =
      (orderEntries left right).then (compareCodes lefts rights) := by
  cases left with
  | nil =>
    cases right with
    | nil => simp [codeOfEntries, orderEntries]
    | cons other others => rfl
  | cons entry entries =>
    cases right with
    | nil => rfl
    | cons other others =>
      have hvalue := compareCodes_append entry.2 other.2 hleft.1 hright.1
        (codeOfEntries entries ++ lefts) (codeOfEntries others ++ rights)
      have hrest := compareCodes_entries entries others hleft.2 hright.2 lefts rights
      simp [codeOfEntries, orderEntries, List.append_assoc, hvalue, hrest, Ordering.then_assoc]

end

/-! ## Equal in the order and the same -/

mutual

/-- Two values are equal in the order exactly when they are the same, whatever the signs
of their not-a-numbers. -/
theorem order_eq_iff_same (left right : Value) :
    left.order right = .eq ↔ left.same right = true := by
  cases left with
  | int number =>
    cases right with
    | int other => simp [order, same, Int64.toInt_inj]
    | float other => simp [order, same]
    | _ => simp [order, same, rank]
  | float number =>
    cases right with
    | int other => simp [order, same]
    | float other =>
      simpa [order, same] using Binary64.order_eq_iff_sameNumber number other
    | _ => simp [order, same, rank]
  | list items =>
    cases right with
    | list others => simpa [order, same] using orderItems_eq_iff_same items others
    | _ => simp [order, same, rank]
  | map entries =>
    cases right with
    | map others => simpa [order, same] using orderEntries_eq_iff_same entries others
    | _ => simp [order, same, rank]
  | _ => cases right <;> simp [order, same, rank, Path.order, Path.same]

theorem orderItems_eq_iff_same (lefts rights : List Value) :
    orderItems lefts rights = .eq ↔ sameItems lefts rights = true := by
  cases lefts with
  | nil => cases rights <;> simp [orderItems, sameItems]
  | cons left lefts =>
    cases rights with
    | nil => simp [orderItems, sameItems]
    | cons right rights =>
      simp [orderItems, sameItems, Ordering.then_eq_eq, order_eq_iff_same left right,
        orderItems_eq_iff_same lefts rights]

theorem orderEntries_eq_iff_same (lefts rights : List (String × Value)) :
    orderEntries lefts rights = .eq ↔ sameEntries lefts rights = true := by
  cases lefts with
  | nil => cases rights <;> simp [orderEntries, sameEntries]
  | cons left lefts =>
    cases rights with
    | nil => simp [orderEntries, sameEntries]
    | cons right rights =>
      simp [orderEntries, sameEntries, Ordering.then_eq_eq, order_eq_iff_same left.2 right.2,
        orderEntries_eq_iff_same lefts rights]

end

/-! ## The other way round -/

mutual

/-- Comparing the other way round gives the other answer. -/
theorem order_swap (left right : Value) : right.order left = (left.order right).swap := by
  cases left with
  | bool truth =>
    cases right with
    | bool other => exact Std.OrientedOrd.eq_swap
    | _ => rfl
  | int number =>
    cases right with
    | int other => exact Std.OrientedOrd.eq_swap
    | _ => rfl
  | float number =>
    cases right with
    | int other => exact Ordering.swap_swap.symm
    | float other => exact Binary64.order_swap number other
    | _ => rfl
  | str text =>
    cases right with
    | str other => exact Std.OrientedOrd.eq_swap
    | _ => rfl
  | list items =>
    cases right with
    | list others => exact orderItems_swap items others
    | _ => rfl
  | map entries =>
    cases right with
    | map others => exact orderEntries_swap entries others
    | _ => rfl
  | artifact handle =>
    cases right with
    | artifact other => exact Path.order_swap handle.path other.path
    | _ => rfl
  | null => cases right <;> rfl

theorem orderItems_swap (lefts rights : List Value) :
    orderItems rights lefts = (orderItems lefts rights).swap := by
  cases lefts with
  | nil => cases rights <;> rfl
  | cons left lefts =>
    cases rights with
    | nil => rfl
    | cons right rights =>
      rw [orderItems, orderItems, Ordering.swap_then, order_swap left right,
        orderItems_swap lefts rights]

theorem orderEntries_swap (lefts rights : List (String × Value)) :
    orderEntries rights lefts = (orderEntries lefts rights).swap := by
  cases lefts with
  | nil => cases rights <;> rfl
  | cons left lefts =>
    cases rights with
    | nil => rfl
    | cons right rights =>
      rw [orderEntries, orderEntries, Ordering.swap_then, Ordering.swap_then,
        order_swap left.2 right.2, orderEntries_swap lefts rights,
        Std.OrientedOrd.eq_swap (a := right.1)]

end

/-! ## Where the order is total -/

theorem order_eq_compareCodes {negative : Bool} {left right : Value}
    (hleft : left.NaNSign negative) (hright : right.NaNSign negative) :
    left.order right = compareCodes left.code right.code := by
  have hcodes := compareCodes_append left right hleft hright [] []
  rw [List.append_nil, List.append_nil] at hcodes
  rw [hcodes]
  exact Ordering.then_eq.symm

/-- **Values whose not-a-numbers have one sign are in a total order**: at most is
transitive, and two values that are the same compare in the same way with every third. -/
theorem order_trans_of_nanSign {negative : Bool} {first second third : Value}
    (hfirst : first.NaNSign negative) (hsecond : second.NaNSign negative)
    (hthird : third.NaNSign negative) :
    ((first.order second).isLE = true → (second.order third).isLE = true →
      (first.order third).isLE = true) ∧
    (first.same second = true →
      first.order third = second.order third ∧ third.order first = third.order second) := by
  constructor
  · intro hle hle'
    rw [order_eq_compareCodes hfirst hsecond] at hle
    rw [order_eq_compareCodes hsecond hthird] at hle'
    rw [order_eq_compareCodes hfirst hthird]
    exact Std.TransCmp.isLE_trans hle hle'
  · intro hsame
    have heq : compareCodes first.code second.code = .eq := by
      rw [← order_eq_compareCodes hfirst hsecond]
      exact (order_eq_iff_same first second).mpr hsame
    have hcode : first.code = second.code := Std.LawfulEqCmp.eq_of_compare heq
    rw [order_eq_compareCodes hfirst hthird, order_eq_compareCodes hthird hfirst, hcode,
      ← order_eq_compareCodes hsecond hthird, ← order_eq_compareCodes hthird hsecond]
    exact ⟨rfl, rfl⟩

/-- A list of numbers is at most the same list with one item more, and a not-a-number
behind equal numbers makes no difference. -/
theorem order_trans_of_positive_nans :
    let first := list [int 1, float (.nan false)]
    let second := list [float (.ofInt 1), float (.nan false)]
    let third := list [int 1, float (.nan false), str "x"]
    first.same second = true ∧ (second.order third).isLE = true ∧
      (first.order third).isLE = true ∧ first.order third = second.order third := by
  intro first second third
  have hfirst : first.NaNSign false := by simp [first, NaNSign, NaNSignOfItems, Binary64.isNegative]
  have hsecond : second.NaNSign false := by
    have hone : (Binary64.ofInt 1).isNaN = false := by decide +kernel
    simp [second, NaNSign, NaNSignOfItems, Binary64.isNegative, hone]
  have hthird : third.NaNSign false := by
    simp [third, NaNSign, NaNSignOfItems, Binary64.isNegative]
  have hsame : first.same second = true := by decide +kernel
  have hle : (second.order third).isLE = true := by decide +kernel
  obtain ⟨htrans, hcongr⟩ := order_trans_of_nanSign hfirst hsecond hthird
  have heq : first.order second = .eq := (order_eq_iff_same first second).mpr hsame
  exact ⟨hsame, hle, htrans (by rw [heq]; rfl) hle, (hcongr hsame).1⟩

/-! ## Where it is none -/

/-- A not-a-number of either sign is the same as one of the other, but every number is
above the negative one and below the positive one. -/
theorem order_between_nans {number : Value} {double : Binary64}
    (hnumber : number.toBinary64? = some double) (hnan : number.same (float (.nan false)) = false) :
    (float (.nan false)).same (float (.nan true)) = true ∧
      (float (.nan true)).order number = .lt ∧ number.order (float (.nan false)) = .lt := by
  refine ⟨rfl, ?_⟩
  cases number with
  | int integer => exact ⟨rfl, rfl⟩
  | float double =>
    cases double with
    | nan negative => cases negative <;> contradiction
    | infinite negative => cases negative <;> exact ⟨rfl, rfl⟩
    | finite => exact ⟨rfl, rfl⟩
  | _ => contradiction

/-- Zero is above one not-a-number and below another that is the same. -/
theorem not_forall_order_trans :
    ¬ ∀ first second third : Value,
      ((first.order second).isLE = true → (second.order third).isLE = true →
        (first.order third).isLE = true) ∧
      (first.same second = true →
        first.order third = second.order third ∧ third.order first = third.order second) := by
  intro hall
  obtain ⟨htrans, -⟩ := hall (float (.nan false)) (float (.nan true)) (int 0)
  exact absurd (htrans rfl rfl) (by decide)

end Value

end Logbook
