import Logbook.Proofs.Binary64.Exact
import Logbook.Proofs.Value.Order
import Logbook.Query.Predicate

/-!
# How the comparisons of a query agree

Of a field and a literal that are ordered, one should be less than the other, or greater, or
equal to it.  Equality is exact, also between an integer and a double.  The order of the two
is not: the integer is rounded to a double first.  So the comparisons agree exactly if the
integer is not rounded onto a double that differs from it (`atomsAgree_iff`), which no integer
of at most 53 bits is (`not_roundsOnto`).

## Strategy

An order and an equality agree if "equal" means the same in both (`atomsAgree_of_order?`).
For values of one kind it does.  An integer that a double equals is converted without
rounding, so between an integer and a double the order says "equal" wherever they are, and
the one question is whether it says so elsewhere.
-/

namespace Logbook

namespace Value

/-- Whether a value is a number, be it an integer or a double. -/
def isNumber : Value → Bool
  | int _ => true
  | float number => !number.isNaN
  | _ => false

end Value

namespace Comparison

/-- Values that have a place in one order. -/
inductive Comparable : Value → Value → Prop
  | numbers {field literal : Value} (hfield : field.isNumber = true)
      (hliteral : literal.isNumber = true) : Comparable field literal
  | texts (field literal : String) : Comparable (.str field) (.str literal)
  | truths (field literal : Bool) : Comparable (.bool field) (.bool literal)
  | lists (field literal : List Value) : Comparable (.list field) (.list literal)

/-- An integer and a double that differ, although the integer is rounded to that double. -/
inductive RoundsOnto : Value → Value → Prop
  | field {integer : Int64} {number : Binary64}
      (hrounded : (Binary64.ofInt integer.toInt).sameNumber number = true)
      (hdiffers : number.compareInt integer ≠ .eq) : RoundsOnto (.int integer) (.float number)
  | literal {integer : Int64} {number : Binary64}
      (hrounded : (Binary64.ofInt integer.toInt).sameNumber number = true)
      (hdiffers : number.compareInt integer ≠ .eq) : RoundsOnto (.float number) (.int integer)

/-- The comparisons of a key with a literal agree on a document: exactly one of less, equal
and greater holds, and the other three say what these say. -/
structure AtomsAgree (document : Document) (key : String) (literal : Value) : Prop where
  exactlyOne : ∃! comparison, comparison ∈ [less, equal, greater] ∧
    (Predicate.compare key comparison literal).holds document = true
  lessEqual : (Predicate.compare key .lessEqual literal).holds document = true ↔
    (Predicate.compare key .less literal).holds document = true ∨
      (Predicate.compare key .equal literal).holds document = true
  greaterEqual : (Predicate.compare key .greaterEqual literal).holds document = true ↔
    (Predicate.compare key .greater literal).holds document = true ∨
      (Predicate.compare key .equal literal).holds document = true
  notEqual : (Predicate.compare key .notEqual literal).holds document = true ↔
    ¬ (Predicate.compare key .equal literal).holds document = true

variable {document : Document} {key : String} {field literal : Value}

/-- An order is one of less, equal and greater. -/
theorem existsUnique_accepts (order : Ordering) :
    ∃! comparison, comparison ∈ [less, equal, greater] ∧ accepts comparison order = true := by
  have hunique (chosen : Comparison) (hchosen : chosen ∈ [less, equal, greater])
      (haccepts : accepts chosen order = true) :
      ∃! comparison, comparison ∈ [less, equal, greater] ∧ accepts comparison order = true := by
    refine ⟨chosen, ⟨hchosen, haccepts⟩, ?_⟩
    rintro other ⟨hother, hotherAccepts⟩
    cases order <;> cases chosen <;> cases other <;> first | rfl | contradiction
  cases order with
  | lt => exact hunique less (by decide) rfl
  | eq => exact hunique equal (by decide) rfl
  | gt => exact hunique greater (by decide) rfl

/-- The comparisons agree if the order says "equal" exactly of values that are. -/
theorem atomsAgree_of_order? (hget : document.get? key = some field) {order : Ordering}
    (horder : order? field literal = some order) :
    AtomsAgree document key literal ↔ (order = .eq ↔ field.same literal = true) := by
  have hatom (comparison : Comparison) :
      (Predicate.compare key comparison literal).holds document =
        comparison.holds field literal := by
    simp only [Predicate.holds, hget]
  have hequal : holds equal field literal = field.same literal := rfl
  have hnotEqual : holds notEqual field literal = !field.same literal := rfl
  have hless : holds less field literal = (order == .lt) := by simp [holds, horder, accepts]
  have hgreater : holds greater field literal = (order == .gt) := by simp [holds, horder, accepts]
  have hlessEqual : holds lessEqual field literal = (order != .gt) := by
    simp [holds, horder, accepts]
  have hgreaterEqual : holds greaterEqual field literal = (order != .lt) := by
    simp [holds, horder, accepts]
  constructor
  · rintro ⟨-, hle, hge, -⟩
    simp only [hatom, hless, hgreater, hequal, hlessEqual, hgreaterEqual] at hle hge
    cases order <;> simp_all
  · intro hsame
    have haccepts : ∀ comparison ∈ [less, equal, greater],
        holds comparison field literal = accepts comparison order := by
      have heq : field.same literal = (order == .eq) := by
        rw [Bool.eq_iff_iff, ← hsame, beq_iff_eq]
      simp [hless, hequal, hgreater, heq, accepts]
    refine ⟨?_, ?_, ?_, ?_⟩
    · refine (existsUnique_congr fun comparison => ?_).mpr (existsUnique_accepts order)
      exact and_congr_right fun hmem => by rw [hatom, haccepts comparison hmem]
    · simp only [hatom, hless, hequal, hlessEqual, ← hsame]
      cases order <;> decide
    · simp only [hatom, hgreater, hequal, hgreaterEqual, ← hsame]
      cases order <;> decide
    · simp [hatom, hequal, hnotEqual]

/-! ## Where the order says "equal" -/

theorem exists_compare? {left right : Binary64} (hleft : left.isNaN = false)
    (hright : right.isNaN = false) :
    ∃ order, left.compare? right = some order ∧
      (order = .eq ↔ left.sameNumber right = true) := by
  refine ⟨_, by simp only [Binary64.compare?, hleft, hright]; rfl, ?_⟩
  simp [Binary64.sameNumber, Binary64.compare?, hleft, hright]

/-- An integer that a double equals is rounded to it. -/
theorem sameNumber_ofInt {integer : Int64} {number : Binary64}
    (h : number.compareInt integer = .eq) :
    (Binary64.ofInt integer.toInt).sameNumber number = true := by
  have hmeaning := (Binary64.compareInt_eq_iff integer number).mp h
  obtain ⟨-, hunits⟩ := Binary64.units_of_meaning hmeaning
  rw [Binary64.sameNumber_iff]
  by_cases hzero : integer.toInt = 0
  · rw [hzero, Binary64.ofInt_zero, ← hmeaning, hzero, Int.zero_mul]
    rfl
  · rw [Binary64.ofInt_of_units hzero hunits]

theorem sameNumber_ofInt_iff {integer : Int64} {number : Binary64} :
    (Binary64.ofInt integer.toInt).sameNumber number = true ↔
      number.compareInt integer = .eq ∨
        (Binary64.ofInt integer.toInt).sameNumber number = true ∧
          number.compareInt integer ≠ .eq := by
  by_cases hexact : number.compareInt integer = .eq
  · simp [hexact, sameNumber_ofInt hexact]
  · simp [hexact]

theorem roundsOnto_iff {integer : Int64} {number : Binary64} :
    RoundsOnto (.int integer) (.float number) ↔
      (Binary64.ofInt integer.toInt).sameNumber number = true ∧
        number.compareInt integer ≠ .eq := by
  constructor
  · rintro (⟨hrounded, hdiffers⟩ | _)
    exact ⟨hrounded, hdiffers⟩
  · rintro ⟨hrounded, hdiffers⟩
    exact .field hrounded hdiffers

theorem RoundsOnto.symm (h : RoundsOnto field literal) : RoundsOnto literal field := by
  cases h with
  | field hrounded hdiffers => exact .literal hrounded hdiffers
  | literal hrounded hdiffers => exact .field hrounded hdiffers

theorem not_same_of_roundsOnto (h : RoundsOnto field literal) : field.same literal = false := by
  cases h with
  | field _ hdiffers => simpa [Value.same] using hdiffers
  | literal _ hdiffers => simpa [Value.same] using hdiffers

/-- Comparable values are ordered, and the order says "equal" of those that are and of an
integer and the double that it is rounded onto. -/
theorem exists_order? (h : Comparable field literal) :
    ∃ order, order? field literal = some order ∧
      (order = .eq ↔ field.same literal = true ∨ RoundsOnto field literal) := by
  cases h with
  | numbers hfield hliteral =>
    cases field with
    | int integer =>
      cases literal with
      | int other =>
        have hnot : ¬ RoundsOnto (.int integer) (.int other) := by rintro ⟨⟩
        refine ⟨_, rfl, ?_⟩
        simp [hnot, Value.same, Int64.toInt_inj]
      | float number =>
        obtain ⟨order, horder, heq⟩ := exists_compare? (Binary64.isNaN_ofInt integer.toInt)
          (by simpa [Value.isNumber] using hliteral)
        refine ⟨order, horder, heq.trans (sameNumber_ofInt_iff.trans ?_)⟩
        simp [Value.same, roundsOnto_iff]
      | _ => cases hliteral
    | float number =>
      have hnumber : number.isNaN = false := by simpa [Value.isNumber] using hfield
      cases literal with
      | int integer =>
        obtain ⟨order, horder, heq⟩ := exists_compare? hnumber (Binary64.isNaN_ofInt integer.toInt)
        refine ⟨order, horder, ?_⟩
        rw [heq, Binary64.sameNumber_comm, sameNumber_ofInt_iff, ← roundsOnto_iff]
        exact or_congr (by simp [Value.same]) ⟨RoundsOnto.symm, RoundsOnto.symm⟩
      | float other =>
        have hnot : ¬ RoundsOnto (.float number) (.float other) := by rintro ⟨⟩
        obtain ⟨order, horder, heq⟩ := exists_compare? hnumber
          (by simpa [Value.isNumber] using hliteral)
        refine ⟨order, horder, ?_⟩
        simp [heq, hnot, Value.same]
      | _ => cases hliteral
    | _ => cases hfield
  | texts field literal =>
    have hnot : ¬ RoundsOnto (.str field) (.str literal) := by rintro ⟨⟩
    exact ⟨_, rfl, by simp [hnot, Value.same]⟩
  | truths field literal =>
    have hnot : ¬ RoundsOnto (.bool field) (.bool literal) := by rintro ⟨⟩
    exact ⟨_, rfl, by simp [hnot, Value.same]⟩
  | lists field literal =>
    have hnot : ¬ RoundsOnto (.list field) (.list literal) := by rintro ⟨⟩
    exact ⟨_, rfl, by simp [hnot, Value.order_eq_iff_same]⟩

/-- No integer of at most 53 bits is rounded. -/
theorem not_roundsOnto {integer : Int64} (number : Binary64)
    (h : integer.toInt.natAbs < Binary64.mantissaBound) :
    ¬ RoundsOnto (.int integer) (.float number) := by
  obtain ⟨hfinite, hunits⟩ := Binary64.ofInt_of_lt h
  rw [roundsOnto_iff, Binary64.sameNumber_iff, Binary64.meaning_of_isFinite hfinite, hunits,
    ← Binary64.compareInt_eq_iff]
  exact fun hrounds => hrounds.2 hrounds.1

/-- **The comparisons of a field with a literal agree unless an integer is rounded**: exactly
one of less, equal and greater holds, and the other three follow from these, if and only if
there is no integer that differs from the double it is compared with and yet is rounded to it. -/
theorem atomsAgree_iff (hget : document.get? key = some field)
    (hcomparable : Comparable field literal) :
    AtomsAgree document key literal ↔ ¬ RoundsOnto field literal := by
  obtain ⟨order, horder, heq⟩ := exists_order? hcomparable
  rw [atomsAgree_of_order? hget horder, heq]
  constructor
  · intro hsame hrounds
    have hdiffers := not_same_of_roundsOnto hrounds
    rw [hsame.mp (.inr hrounds)] at hdiffers
    cases hdiffers
  · intro hnot
    exact or_iff_left hnot

/-- The largest integer is rounded, but not onto the double before the one it is rounded to. -/
theorem atomsAgree_of_largest_integer :
    let document := SortedMap.ofList [("config.n", Value.int 9223372036854775807)]
    let literal := Value.float (.ofInt 9223372036854774784)
    AtomsAgree document "config.n" literal ∧ literal.isNumber = true := by
  intro document literal
  have hget : document.get? "config.n" = some (.int 9223372036854775807) := rfl
  have hliteral : literal.isNumber = true := by decide +kernel
  have hnot : ¬ RoundsOnto (.int 9223372036854775807) literal := by
    rw [roundsOnto_iff]
    decide +kernel
  exact ⟨(atomsAgree_iff hget (.numbers rfl hliteral)).mpr hnot, hliteral⟩

/-- One more than 2 ^ 53 is rounded onto 2 ^ 53: it is at most that, but neither less nor equal. -/
theorem not_forall_atomsAgree :
    ¬ ∀ (document : Document) (key : String) (field literal : Value),
      document.get? key = some field → Comparable field literal →
        AtomsAgree document key literal := by
  intro hall
  have hagree := hall (SortedMap.ofList [("config.n", .int 9007199254740993)]) "config.n"
    (.int 9007199254740993) (.float (.ofInt 9007199254740992)) rfl
    (.numbers rfl (by decide +kernel))
  exact absurd hagree.lessEqual (by decide +kernel)

end Comparison

end Logbook
