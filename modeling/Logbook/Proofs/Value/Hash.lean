import Logbook.Proofs.Binary64.Exact
import Logbook.Proofs.Value.Order

/-!
# Equal values have one hash

Groups and indices are kept under values, so a value that means the same as another has to
be found under it: the two must be equal in the order, and add the same to a hash
(`same_order_hash_coherent`).  The hash looks at how a value is written, so what has to be
shown is that the same number is never written in two ways that it tells apart.

## Strategy

Numbers of one meaning are two not-a-numbers, two zeros, an integer and the double of the same
number, or one and the same double (`eq_of_meaning`).  Zeros and doubles that an integer equals
add the integer to a hash, and not-a-numbers one fixed word.  For lists and maps both facts
follow item by item.
-/

namespace Logbook

/-! ## Numbers -/

namespace Binary64

/-- Doubles of one meaning are one double, unless they are zeros or not-a-numbers. -/
theorem eq_of_meaning {left right : Binary64} (h : left.meaning = right.meaning)
    (hnan : left.isNaN = false) (hne : left.units ≠ 0 ∨ left.isFinite = false) :
    left = right := by
  cases left with
  | nan => cases hnan
  | infinite negative =>
    cases right with
    | infinite other => exact congrArg infinite (by simpa [meaning] using h)
    | _ => cases h
  | finite negative mantissa exponent canonical =>
    cases right with
    | finite otherNegative otherMantissa otherExponent otherCanonical =>
      exact eq_of_units (hne.resolve_right (by simp [isFinite])) (by simpa [meaning] using h)
    | _ => cases h

end Binary64

namespace Value

/-- A double that equals an integer adds that integer to a hash. -/
theorem floatHashParts_of_units {integer : Int64} {number : Binary64}
    (hfinite : number.isFinite = true)
    (hunits : number.units = integer.toInt * Binary64.unitsPerOne) :
    floatHashParts number = [.tag 2, .number integer.toInt] := by
  have hpos := Binary64.unitsPerOne_pos
  have hwhole : number.truncate = integer.toInt := by
    rw [Binary64.truncate, hunits, Int.mul_tdiv_cancel _ hpos.ne']
  have hintegral : number.isIntegral = true := by
    simp [Binary64.isIntegral, hfinite, hwhole, hunits]
  have hfits : number.fitsInt64 = true := by
    simp [Binary64.fitsInt64, hfinite, hwhole]
  simp [floatHashParts, hintegral, hfits, hwhole]

theorem floatHashParts_nan (negative : Bool) :
    floatHashParts (.nan negative) = [.tag 3, .number (Binary64.nan false).bits] := by
  simp [floatHashParts, Binary64.isIntegral, Binary64.isFinite, Binary64.isNaN]

/-- Two doubles that are the same number add the same to a hash. -/
theorem floatHashParts_congr {left right : Binary64} (h : left.sameNumber right = true) :
    floatHashParts left = floatHashParts right := by
  have hmeaning := (Binary64.sameNumber_iff left right).mp h
  cases left with
  | nan negative =>
    cases right with
    | nan other => rw [floatHashParts_nan, floatHashParts_nan]
    | _ => cases hmeaning
  | infinite negative => rw [Binary64.eq_of_meaning hmeaning rfl (.inr rfl)]
  | finite negative mantissa exponent canonical =>
    obtain ⟨hfinite, hunits⟩ := Binary64.units_of_meaning hmeaning
    by_cases hzero : (Binary64.finite negative mantissa exponent canonical).units = 0
    · -- The two zeros have two words, but both equal the integer zero.
      have hnone : (0 : Int) = (0 : Int64).toInt * Binary64.unitsPerOne := by simp
      rw [floatHashParts_of_units rfl (hzero.trans hnone),
        floatHashParts_of_units hfinite (hunits.trans (hzero.trans hnone))]
    · rw [Binary64.eq_of_meaning hmeaning rfl (.inl hzero)]

mutual

/-- What is the same adds the same to a hash. -/
theorem hashParts_congr (left right : Value) (h : left.same right = true) :
    left.hashParts = right.hashParts := by
  cases left with
  | int number =>
    cases right with
    | int other => simpa [same, hashParts, Int64.toInt_inj] using h
    | float other =>
      have hmeaning := (same_iff_meaning (int number) (float other)).mp h
      obtain ⟨hfinite, hunits⟩ := Binary64.units_of_meaning hmeaning
      exact (floatHashParts_of_units hfinite hunits).symm
    | _ => cases h
  | float number =>
    cases right with
    | int other =>
      have hmeaning := (same_iff_meaning (float number) (int other)).mp h
      obtain ⟨hfinite, hunits⟩ := Binary64.units_of_meaning hmeaning.symm
      exact floatHashParts_of_units hfinite hunits
    | float other => exact floatHashParts_congr h
    | _ => cases h
  | list items =>
    cases right with
    | list others =>
      obtain ⟨hlength, hparts⟩ := hashPartsOfItems_congr items others h
      simp [hashParts, hlength, hparts]
    | _ => cases h
  | map entries =>
    cases right with
    | map others =>
      obtain ⟨hlength, hparts⟩ := hashPartsOfEntries_congr entries others h
      simp [hashParts, hlength, hparts]
    | _ => cases h
  | artifact handle =>
    cases right with
    | artifact other =>
      have hsteps : handle.path.steps = other.path.steps := by simpa [same, Path.same] using h
      simp [hashParts, pathHashParts, hsteps]
    | _ => cases h
  | bool truth =>
    cases right with
    | bool other =>
      obtain rfl : truth = other := by simpa [same] using h
      rfl
    | _ => cases h
  | str text =>
    cases right with
    | str other => simpa [same, hashParts] using h
    | _ => cases h
  | null =>
    cases right with
    | null => rfl
    | _ => cases h

theorem hashPartsOfItems_congr (lefts rights : List Value) (h : sameItems lefts rights = true) :
    lefts.length = rights.length ∧ hashPartsOfItems lefts = hashPartsOfItems rights := by
  cases lefts with
  | nil =>
    cases rights with
    | nil => exact ⟨rfl, rfl⟩
    | cons right rights => cases h
  | cons left lefts =>
    cases rights with
    | nil => cases h
    | cons right rights =>
      obtain ⟨hfirst, hmore⟩ := Bool.and_eq_true_iff.mp h
      obtain ⟨hlength, hparts⟩ := hashPartsOfItems_congr lefts rights hmore
      simp [hashPartsOfItems, hlength, hparts, hashParts_congr left right hfirst]

theorem hashPartsOfEntries_congr (lefts rights : List (String × Value))
    (h : sameEntries lefts rights = true) :
    lefts.length = rights.length ∧ hashPartsOfEntries lefts = hashPartsOfEntries rights := by
  cases lefts with
  | nil =>
    cases rights with
    | nil => exact ⟨rfl, rfl⟩
    | cons right rights => cases h
  | cons left lefts =>
    cases rights with
    | nil => cases h
    | cons right rights =>
      simp only [sameEntries, Bool.and_eq_true, beq_iff_eq] at h
      obtain ⟨⟨hkey, hvalue⟩, hmore⟩ := h
      obtain ⟨hlength, hparts⟩ := hashPartsOfEntries_congr lefts rights hmore
      simp [hashPartsOfEntries, hlength, hparts, hkey, hashParts_congr left.2 right.2 hvalue]

end

/-! ## Values as keys -/

instance : EquivBEq Value where
  rfl {value} := same_refl value
  symm h := same_symm h
  trans hleft hright := same_trans hleft hright

instance : LawfulHashable Value where
  hash_eq left right h :=
    congrArg (fun parts : List HashPart => hash parts) (hashParts_congr left right h)

/-- **Equality, hash and order of values fit**: equality is an equivalence, values are equal
exactly when neither is before the other, comparing the other way round gives the other
answer, and equal values add the same to a hash. -/
theorem same_order_hash_coherent (first second third : Value) :
    first.same first = true ∧
      (first.same second = true → second.same first = true) ∧
      (first.same second = true → second.same third = true → first.same third = true) ∧
      (first.same second = true ↔ first.order second = .eq) ∧
      second.order first = (first.order second).swap ∧
      (first.same second = true → first.hashParts = second.hashParts) :=
  ⟨same_refl first, same_symm, same_trans, (order_eq_iff_same first second).symm,
    order_swap first second, hashParts_congr first second⟩

/-- The least integer and its double, two zeros and two not-a-numbers share one hash also
where they are nested. -/
theorem hashParts_of_two_spellings :
    let first := list
      [int (-9223372036854775808), map [("a", float (.zero true))], float (.nan true)]
    let second := list
      [float (.ofInt (-9223372036854775808)), map [("a", int 0)], float (.nan false)]
    first.same second = true ∧ second.same first = true ∧ second.order first = .eq ∧
      first.hashParts = second.hashParts := by
  intro first second
  have hsame : first.same second = true := by decide +kernel
  obtain ⟨-, hsymm, -, horder, hswap, hhash⟩ := same_order_hash_coherent first second first
  refine ⟨hsame, hsymm hsame, ?_, hhash hsame⟩
  rw [hswap, horder.mp hsame]
  rfl

end Value

end Logbook
