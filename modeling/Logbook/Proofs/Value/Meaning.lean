import Logbook.Value.Basic
import Mathlib.Tactic.Ring

/-!
# What values mean

`Value.same` compares values case by case, and numbers of two kinds exactly.  Here a
value gets a `Meaning`, in which the integer and the double of one number are the same
thing, and so are all zeros and all not-a-numbers.  Two values are the same exactly
when they have one meaning, so sameness is an equivalence, for values of any nesting.
-/

namespace Logbook

/-- What a value means, however it is written. -/
inductive Meaning where
  /-- No value. -/
  | null
  /-- A truth value. -/
  | truth (truth : Bool)
  /-- A number, counted in units of doubles. -/
  | number (units : Int)
  /-- An infinity. -/
  | infinity (negative : Bool)
  /-- Not a number. -/
  | notNumber
  /-- A text. -/
  | text (text : String)
  /-- A list. -/
  | list (items : List Meaning)
  /-- Entries under keys. -/
  | map (entries : List (String × Meaning))
  /-- The place of the payload of an artifact. -/
  | place (steps : List Path.Step)

/-- Whether this is what a number can mean. -/
def Meaning.isNumeric : Meaning → Bool
  | number _ | infinity _ | notNumber => true
  | _ => false

/-! ## Numbers -/

namespace Binary64

/-- What a double means. -/
def meaning : Binary64 → Meaning
  | nan _ => .notNumber
  | infinite negative => .infinity negative
  | number@(finite ..) => .number number.units

/-- What a double means is nothing that a value of another kind means. -/
theorem meaning_ne (number : Binary64) {other : Meaning} (h : other.isNumeric = false) :
    number.meaning ≠ other := by
  rintro rfl
  cases number <;> simp [meaning, Meaning.isNumeric] at h

theorem sameNumber_iff (left right : Binary64) :
    left.sameNumber right = true ↔ left.meaning = right.meaning := by
  cases left <;> cases right <;>
    simp [sameNumber, compare?, isNaN, meaning, rank, units] <;> grind

/-- A double equals an integer exactly when it has that many units. -/
theorem compareInt_eq_iff (integer : Int64) (number : Binary64) :
    number.compareInt integer = .eq ↔
      Meaning.number (integer.toInt * unitsPerOne) = number.meaning := by
  have hpos := unitsPerOne_pos
  cases number with
  | nan negative => cases negative <;> simp [compareInt, meaning]
  | infinite negative => cases negative <;> simp [compareInt, meaning]
  | finite negative mantissa exponent canonical =>
    simp only [compareInt, meaning, Meaning.number.injEq]
    set units := (finite negative mantissa exponent canonical).units with hunits
    set whole := (finite negative mantissa exponent canonical).truncate with hwhole
    have hbelow : integer.toInt < Integer.int64Bound := integer.toInt_lt
    have habove : -Integer.int64Bound ≤ integer.toInt := integer.le_toInt
    constructor
    · intro heq
      split at heq
      · contradiction
      · split at heq
        · contradiction
        · obtain ⟨hinteger, hfraction⟩ := Ordering.then_eq_eq.mp heq
          rw [compare_eq_iff_eq.mp hinteger, compare_eq_iff_eq.mp hfraction]
    · intro heq
      -- As many units as the integer has leave no fraction, and are within its bounds.
      have hinteger : whole = integer.toInt := by
        rw [hwhole, truncate, ← hunits, ← heq, Int.mul_tdiv_cancel _ hpos.ne']
      rw [if_neg, if_neg, hinteger, heq]
      · simp
      · rw [← heq]
        exact not_lt.mpr (Int.mul_le_mul_of_nonneg_right habove hpos.le)
      · rw [← heq]
        exact not_le.mpr (Int.mul_lt_mul_of_pos_right hbelow hpos)

theorem meaning_of_isFinite {number : Binary64} (h : number.isFinite = true) :
    number.meaning = .number number.units := by
  cases number with
  | finite => rfl
  | _ => cases h

/-- Only a finite double means a number. -/
theorem units_of_meaning {integer : Int} {number : Binary64}
    (h : Meaning.number integer = number.meaning) :
    number.isFinite = true ∧ number.units = integer := by
  cases number with
  | finite => exact ⟨rfl, (Meaning.number.inj h).symm⟩
  | _ => cases h

end Binary64

/-! ## Values -/

namespace Value

mutual

/-- What a value means. -/
def meaning : Value → Meaning
  | null => .null
  | bool truth => .truth truth
  | int number => .number (number.toInt * Binary64.unitsPerOne)
  | float number => number.meaning
  | str text => .text text
  | list items => .list (meaningOfItems items)
  | map entries => .map (meaningOfEntries entries)
  | artifact handle => .place handle.path.steps

/-- What the items of a list mean. -/
def meaningOfItems : List Value → List Meaning
  | [] => []
  | item :: items => item.meaning :: meaningOfItems items

/-- What the entries of a map mean. -/
def meaningOfEntries : List (String × Value) → List (String × Meaning)
  | [] => []
  | (key, value) :: entries => (key, value.meaning) :: meaningOfEntries entries

end

mutual

/-- Two values are the same exactly when they have one meaning. -/
theorem same_iff_meaning (left right : Value) :
    left.same right = true ↔ left.meaning = right.meaning := by
  cases left with
  | int number =>
    cases right with
    | int other =>
      have hne : Binary64.unitsPerOne ≠ 0 := by have := Binary64.unitsPerOne_pos; omega
      simp [same, meaning, hne, Int64.toInt_inj]
    | float other => simpa [same, meaning] using Binary64.compareInt_eq_iff number other
    | _ => simp [same, meaning]
  | float number =>
    cases right with
    | int other =>
      simpa [same, meaning] using (Binary64.compareInt_eq_iff other number).trans eq_comm
    | float other => exact Binary64.sameNumber_iff number other
    | _ => exact iff_of_false (by simp [same]) (number.meaning_ne rfl)
  | list items =>
    cases right with
    | list others => simpa [same, meaning] using sameItems_iff_meaning items others
    | float other => exact iff_of_false (by simp [same]) (other.meaning_ne rfl).symm
    | _ => simp [same, meaning]
  | map entries =>
    cases right with
    | map others => simpa [same, meaning] using sameEntries_iff_meaning entries others
    | float other => exact iff_of_false (by simp [same]) (other.meaning_ne rfl).symm
    | _ => simp [same, meaning]
  | _ =>
    cases right with
    | float other => exact iff_of_false (by simp [same]) (other.meaning_ne rfl).symm
    | _ => simp [same, meaning, Path.same]

theorem sameItems_iff_meaning (lefts rights : List Value) :
    sameItems lefts rights = true ↔ meaningOfItems lefts = meaningOfItems rights := by
  cases lefts with
  | nil => cases rights <;> simp [sameItems, meaningOfItems]
  | cons left lefts =>
    cases rights with
    | nil => simp [sameItems, meaningOfItems]
    | cons right rights =>
      simp [sameItems, meaningOfItems, same_iff_meaning left right,
        sameItems_iff_meaning lefts rights]

theorem sameEntries_iff_meaning (lefts rights : List (String × Value)) :
    sameEntries lefts rights = true ↔ meaningOfEntries lefts = meaningOfEntries rights := by
  cases lefts with
  | nil => cases rights <;> simp [sameEntries, meaningOfEntries]
  | cons left lefts =>
    cases rights with
    | nil => simp [sameEntries, meaningOfEntries]
    | cons right rights =>
      obtain ⟨leftKey, left⟩ := left
      obtain ⟨rightKey, right⟩ := right
      simp [sameEntries, meaningOfEntries, same_iff_meaning left right,
        sameEntries_iff_meaning lefts rights]

end

/-! ## Sameness is an equivalence -/

@[simp] theorem same_refl (value : Value) : value.same value = true :=
  (same_iff_meaning value value).mpr rfl

theorem same_symm {left right : Value} (h : left.same right = true) : right.same left = true :=
  (same_iff_meaning right left).mpr ((same_iff_meaning left right).mp h).symm

theorem same_trans {left middle right : Value} (hleft : left.same middle = true)
    (hright : middle.same right = true) : left.same right = true :=
  (same_iff_meaning left right).mpr
    (((same_iff_meaning left middle).mp hleft).trans ((same_iff_meaning middle right).mp hright))

@[simp] theorem sameItems_refl (items : List Value) : sameItems items items = true :=
  (sameItems_iff_meaning items items).mpr rfl

theorem sameItems_symm {lefts rights : List Value} (h : sameItems lefts rights = true) :
    sameItems rights lefts = true :=
  (sameItems_iff_meaning rights lefts).mpr ((sameItems_iff_meaning lefts rights).mp h).symm

theorem sameItems_trans {lefts middles rights : List Value}
    (hleft : sameItems lefts middles = true) (hright : sameItems middles rights = true) :
    sameItems lefts rights = true :=
  (sameItems_iff_meaning lefts rights).mpr
    (((sameItems_iff_meaning lefts middles).mp hleft).trans
      ((sameItems_iff_meaning middles rights).mp hright))

/-- Lists of one length are compared piece by piece. -/
theorem sameItems_append {left right left' right' : List Value}
    (hlength : left.length = right.length) :
    sameItems (left ++ left') (right ++ right') =
      (sameItems left right && sameItems left' right') := by
  induction left generalizing right with
  | nil =>
    obtain rfl := List.length_eq_zero_iff.mp hlength.symm
    rfl
  | cons value left ih =>
    obtain ⟨other, right, rfl⟩ := List.exists_cons_of_length_eq_add_one hlength.symm
    rw [List.cons_append, List.cons_append, sameItems, sameItems, ih (Nat.succ.inj hlength),
      Bool.and_assoc]

theorem length_eq_of_sameItems {left right : List Value}
    (h : sameItems left right = true) : left.length = right.length := by
  induction left generalizing right with
  | nil =>
    cases right with
    | nil => rfl
    | cons other right => cases h
  | cons value left ih =>
    cases right with
    | nil => cases h
    | cons other right =>
      rw [sameItems, Bool.and_eq_true] at h
      rw [List.length_cons, List.length_cons, ih h.2]

/-! ## Entries -/

/-- A tuple may be written in the place of an equal one. -/
theorem sameEntries_zip_append (keys : List String) {tuple other : List Value}
    {lefts rights : List (String × Value)} (htuple : sameItems tuple other = true)
    (h : sameEntries lefts rights = true) :
    sameEntries (keys.zip tuple ++ lefts) (keys.zip other ++ rights) = true := by
  induction keys generalizing tuple other with
  | nil => exact h
  | cons key keys ih =>
    cases tuple with
    | nil => cases other with
      | nil => exact h
      | cons value other => cases htuple
    | cons value tuple => cases other with
      | nil => cases htuple
      | cons otherValue other =>
        obtain ⟨hvalue, hrest⟩ := Bool.and_eq_true_iff.mp htuple
        simpa [sameEntries, hvalue] using ih hrest

theorem keys_of_sameEntries {lefts rights : List (String × Value)}
    (h : sameEntries lefts rights = true) : lefts.map Prod.fst = rights.map Prod.fst := by
  induction lefts generalizing rights with
  | nil => cases rights with
    | nil => rfl
    | cons right rights => cases h
  | cons left lefts ih => cases rights with
    | nil => cases h
    | cons right rights =>
      simp only [sameEntries, Bool.and_eq_true, beq_iff_eq] at h
      rw [List.map_cons, List.map_cons, h.1.1, ih h.2]

/-- Every entry has one like it on the other side. -/
theorem exists_of_sameEntries {lefts rights : List (String × Value)} {key : String} {value : Value}
    (h : sameEntries lefts rights = true) (hmem : (key, value) ∈ lefts) :
    ∃ other, (key, other) ∈ rights ∧ value.same other = true := by
  induction lefts generalizing rights with
  | nil => cases hmem
  | cons left lefts ih => cases rights with
    | nil => cases h
    | cons right rights =>
      simp only [sameEntries, Bool.and_eq_true, beq_iff_eq] at h
      obtain ⟨⟨hkey, hvalue⟩, hrest⟩ := h
      obtain rfl | hlater := List.mem_cons.mp hmem
      · exact ⟨right.2, by simp [show key = right.1 from hkey], hvalue⟩
      · obtain ⟨other, hother, hsame⟩ := ih hrest hlater
        exact ⟨other, List.mem_cons_of_mem _ hother, hsame⟩

end Value

end Logbook
