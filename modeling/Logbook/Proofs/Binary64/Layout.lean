import Mathlib.Tactic.FieldSimp
import Logbook.Proofs.Binary64.Shortest

/-!
# The digits of a double in its text

A text of a double has digits, a point, more digits and in some layouts an exponent.  Taken
together they are the shortest decimal of the double, so whoever reads the digits and the
exponent gets the double back, whatever the layout is.
-/

namespace Logbook

namespace Decimal

theorem ofDigits_append (whole fraction : List Char) :
    ofDigits (whole ++ fraction) = 10 ^ fraction.length * ofDigits whole + ofDigits fraction := by
  show Nat.ofDigitChars 10 _ 0 = _
  rw [Nat.ofDigitChars_append, Nat.ofDigitChars_eq_ofDigitChars_zero]
  rfl

theorem ofDigits_toDigits (number : Nat) : ofDigits (Nat.toDigits 10 number) = number :=
  Nat.ofDigitChars_ten_toDigits

theorem ofDigits_replicate_zero (count : Nat) : ofDigits (List.replicate count '0') = 0 := by
  show Nat.ofDigitChars 10 _ 0 = 0
  rw [Nat.ofDigitChars_replicate_zero, Nat.mul_zero]

/-- Only the number zero begins with the digit zero. -/
theorem head_toDigits {number : Nat} (h : (Nat.toDigits 10 number).head? = some '0') :
    number = 0 := by
  induction number using Nat.strongRecOn with
  | ind number ih =>
    rcases Nat.lt_or_ge number 10 with hlt | hge
    · have hdigit : ∀ digit < 10, [Nat.digitChar digit].head? = some '0' → digit = 0 := by decide
      rw [Nat.toDigits_of_lt_base hlt] at h
      exact hdigit number hlt h
    · rw [Nat.toDigits_of_base_le (by decide) hge,
        List.head?_append_of_ne_nil _ Nat.toDigits_ne_nil] at h
      have hzero := ih (number / 10) (by omega) h
      omega

theorem takeWhile_digits {digits rest : List Char} (hdigits : ∀ c ∈ digits, c.isDigit = true)
    (hrest : ∀ c, rest.head? = some c → c.isDigit = false) :
    (digits ++ rest).takeWhile Char.isDigit = digits := by
  rw [List.takeWhile_append_of_pos hdigits]
  cases rest with
  | nil => simp
  | cons c rest => simp [hrest c rfl]

theorem dropWhile_digits {digits rest : List Char} (hdigits : ∀ c ∈ digits, c.isDigit = true)
    (hrest : ∀ c, rest.head? = some c → c.isDigit = false) :
    (digits ++ rest).dropWhile Char.isDigit = rest := by
  rw [List.dropWhile_append_of_pos hdigits]
  cases rest with
  | nil => rfl
  | cons c rest => simp [hrest c rfl]

/-- The sign of a number that is not negative is not written. -/
def signText (negative : Bool) : List Char := if negative then ['-'] else []

theorem repr_toList (integer : Int) :
    integer.repr.toList = signText (decide (integer < 0)) ++ Nat.toDigits 10 integer.natAbs := by
  cases integer with
  | ofNat magnitude =>
    have hsign : decide (Int.ofNat magnitude < 0) = false := by simp
    rw [hsign]
    exact Nat.toList_repr
  | negSucc magnitude =>
    have hsign : decide (Int.negSucc magnitude < 0) = true := by simp
    rw [hsign]
    show ("-" ++ Nat.repr (magnitude + 1)).toList = _
    rw [String.toList_append, Nat.toList_repr]
    rfl

/-- Digits in front of a point and behind it, and a power of ten, that make up a decimal. -/
structure Spelled (whole fraction : List Char) (power : Int) (number : Decimal) : Prop where
  /-- There are only digits. -/
  isDigit : ∀ c ∈ whole ++ fraction, c.isDigit = true
  /-- A digit stands in front of the point. -/
  ne_nil : whole ≠ []
  /-- A leading zero stands alone. -/
  leading : whole.head? = some '0' → whole = ['0']
  /-- The digits have the value of the decimal. -/
  value_eq :
    (⟨ofDigits (whole ++ fraction), power - fraction.length⟩ : Decimal).value = number.value

/-- The digits of a positive number, or a single zero. -/
theorem leading_toDigits {number : Nat} {digits : List Char}
    (hstart : digits <+: Nat.toDigits 10 number) (h : digits.head? = some '0') :
    digits = ['0'] := by
  obtain ⟨rest, hrest⟩ := hstart
  have hne : digits ≠ [] := by
    rintro rfl
    cases h
  have hzero : number = 0 := head_toDigits (by rw [← hrest, List.head?_append_of_ne_nil _ hne, h])
  rw [hzero, Nat.toDigits_zero] at hrest
  cases digits with
  | nil => exact absurd rfl hne
  | cons digit digits =>
    obtain ⟨rfl, hnil⟩ := List.cons.inj hrest
    rw [(List.append_eq_nil_iff.mp hnil).1]

theorem isDigit_of_mem_toDigits {number : Nat} {c : Char} (h : c ∈ Nat.toDigits 10 number) :
    c.isDigit = true :=
  Nat.isDigit_of_mem_toDigits (by decide) (by decide) h

theorem value_shift (digits : Nat) (power : Int) (count : Nat) :
    (⟨10 ^ count * digits, power - count⟩ : Decimal).value = (⟨digits, power⟩ : Decimal).value := by
  rw [value, value, zpow_sub₀ (by norm_num), zpow_natCast]
  push_cast
  field_simp

end Decimal

namespace FloatStyle

open Decimal

/-- Digits that are followed by zeros in front of the point. -/
theorem spelled_zeros {number : Decimal} (hzero : number.digits = 0 → number.power = 0)
    (hpower : 0 ≤ number.power) :
    Spelled (Nat.toDigits 10 number.digits ++ List.replicate number.power.toNat '0') ['0'] 0
      number where
  isDigit c hc := by
    simp only [List.mem_append, List.mem_replicate, List.mem_singleton] at hc
    rcases hc with (hc | ⟨-, rfl⟩) | rfl
    · exact isDigit_of_mem_toDigits hc
    · rfl
    · rfl
  ne_nil := by simp [Nat.toDigits_ne_nil]
  leading hhead := by
    rw [List.head?_append_of_ne_nil _ Nat.toDigits_ne_nil] at hhead
    have hdigits := head_toDigits hhead
    rw [hdigits, hzero hdigits, Nat.toDigits_zero]
    rfl
  value_eq := by
    obtain ⟨count, hcount⟩ := Int.eq_ofNat_of_zero_le hpower
    obtain ⟨digits, power⟩ := number
    simp only at hcount
    subst hcount
    have hshift := value_shift digits count count
    rw [Int.sub_self] at hshift
    rw [ofDigits_append, ofDigits_append, ofDigits_toDigits, ofDigits_replicate_zero,
      List.length_replicate, Int.toNat_natCast, ← hshift]
    exact value_shift _ 0 1

/-- Digits with the point between them. -/
theorem spelled_cut {number : Decimal} (hpower : number.power < 0)
    (hwhole : 0 < (Nat.toDigits 10 number.digits).length + number.power) :
    let count := ((Nat.toDigits 10 number.digits).length + number.power).toNat
    Spelled ((Nat.toDigits 10 number.digits).take count)
      ((Nat.toDigits 10 number.digits).drop count) 0 number := by
  intro count
  refine ⟨?_, ?_, leading_toDigits (List.take_prefix _ _), ?_⟩
  · rw [List.take_append_drop]
    exact fun c => isDigit_of_mem_toDigits
  · rw [Ne, List.take_eq_nil_iff, not_or]
    exact ⟨by omega, Nat.toDigits_ne_nil⟩
  · rw [List.take_append_drop, ofDigits_toDigits, List.length_drop]
    congr 2
    omega

/-- Digits behind a zero, the point and more zeros. -/
theorem spelled_small {number : Decimal}
    (hwhole : ¬ 0 < (Nat.toDigits 10 number.digits).length + number.power) :
    let count := (-((Nat.toDigits 10 number.digits).length + number.power)).toNat
    Spelled ['0'] (List.replicate count '0' ++ Nat.toDigits 10 number.digits) 0 number := by
  intro count
  refine ⟨fun c hc => ?_, by decide, fun _ => rfl, ?_⟩
  · simp only [List.mem_append, List.mem_replicate, List.mem_singleton] at hc
    rcases hc with rfl | ⟨-, rfl⟩ | hc
    · rfl
    · rfl
    · exact isDigit_of_mem_toDigits hc
  · have hdigits : ofDigits (['0'] ++ (List.replicate count '0' ++ Nat.toDigits 10 number.digits)) =
        number.digits := by
      rw [← List.append_assoc, ofDigits_append, ofDigits_append, ofDigits_replicate_zero,
        ofDigits_toDigits]
      simp [ofDigits, digitValue]
    rw [hdigits, List.length_append, List.length_replicate]
    congr 2
    omega

/-- The digits of a number with a point, wherever it stands. -/
theorem spelled_plain {number : Decimal} (hzero : number.digits = 0 → number.power = 0) :
    ∃ whole fraction, fraction ≠ [] ∧
      plain (Nat.toDigits 10 number.digits) number.power = whole ++ '.' :: fraction ∧
      Spelled whole fraction 0 number := by
  have hlength : 0 < (Nat.toDigits 10 number.digits).length := Nat.length_toDigits_pos
  unfold plain
  dsimp only
  split
  · next hpower => exact ⟨_, _, by decide, rfl, spelled_zeros hzero hpower⟩
  · split
    · next hpower hwhole =>
      refine ⟨_, _, ?_, rfl, spelled_cut (by omega) hwhole⟩
      rw [Ne, List.drop_eq_nil_iff]
      omega
    · next hwhole =>
      refine ⟨['0'], _, ?_, rfl, spelled_small hwhole⟩
      simp [Nat.toDigits_ne_nil]

/-- The digits of a number with an exponent. -/
theorem spelled_scientific (number : Decimal) :
    Spelled ((Nat.toDigits 10 number.digits).take 1) ((Nat.toDigits 10 number.digits).drop 1)
      (number.power + (Nat.toDigits 10 number.digits).length - 1) number := by
  have hlength : 0 < (Nat.toDigits 10 number.digits).length := Nat.length_toDigits_pos
  refine ⟨?_, ?_, leading_toDigits (List.take_prefix _ _), ?_⟩
  · rw [List.take_append_drop]
    exact fun c => isDigit_of_mem_toDigits
  · rw [Ne, List.take_eq_nil_iff, not_or]
    exact ⟨by decide, Nat.toDigits_ne_nil⟩
  · rw [List.take_append_drop, ofDigits_toDigits, List.length_drop]
    congr 2
    omega

theorem render_finite (style : FloatStyle) (negative : Bool) (mantissa exponent : Nat)
    (hcanonical : Binary64.Canonical mantissa exponent) :
    ((Binary64.finite negative mantissa exponent hcanonical).render style).toList =
      signText negative ++ style.decimal (Binary64.shortest style.tie mantissa exponent) := by
  cases negative <;> simp [Binary64.render, signText]

end FloatStyle

namespace Binary64

open Decimal

theorem shortest_zero (tie : Tie) {mantissa exponent : Nat}
    (hcanonical : Canonical mantissa exponent)
    (h : (shortest tie mantissa exponent).digits = 0) :
    (shortest tie mantissa exponent).power = 0 := by
  rcases Nat.eq_zero_or_pos mantissa with rfl | hpos
  · simp [shortest]
  · exact absurd h (shortest_digits_pos tie hcanonical hpos).ne'

/-- **The digits and the exponent of a text of a double are read as the double.** -/
theorem toBinary64_of_spelled (negative : Bool) {tie : Tie} {mantissa exponent : Nat}
    (hcanonical : Canonical mantissa exponent) {whole fraction : List Char} {power : Int}
    (h : Spelled whole fraction power (shortest tie mantissa exponent)) :
    ofDecimal negative (ofDigits (whole ++ fraction)) (power - fraction.length) =
      .finite negative mantissa exponent hcanonical :=
  toBinary64_of_shortest negative tie hcanonical h.value_eq

end Binary64

end Logbook
