import Logbook.Proofs.Binary64.Layout
import Logbook.Store.Timestamp

/-!
# Moments and their texts

A moment is read from its own text (`Timestamp.ofText?_text`), so a snapshot that is saved again
says the same moment in the same way.  Every number in a text has a character behind it that is no
digit; therefore each part has a lemma of its own that says how it is read, whatever follows, and
the parts are put together.
-/

namespace Logbook

namespace Timestamp

open Decimal

variable {rest : List Char}

/-! ## Numbers -/

theorem isDigit_of_mem_padded {width number : Nat} {c : Char} (h : c ∈ padded width number) :
    c.isDigit = true := by
  rcases List.mem_append.mp h with hzero | hdigit
  · rw [List.eq_of_mem_replicate hzero]
    rfl
  · exact isDigit_of_mem_toDigits hdigit

theorem padded_ne_nil (width number : Nat) : padded width number ≠ [] :=
  List.append_ne_nil_of_right_ne_nil _ Nat.toDigits_ne_nil

theorem ofDigits_padded (width number : Nat) : ofDigits (padded width number) = number := by
  rw [padded, List.leftpad, ofDigits_append, ofDigits_replicate_zero, Nat.mul_zero, Nat.zero_add,
    ofDigits_toDigits]

theorem length_padded {width number : Nat} (hwidth : 0 < width) (h : number < 10 ^ width) :
    (padded width number).length = width := by
  rw [padded, List.length_leftpad, max_eq_left]
  exact (Nat.length_toDigits_le_iff (by decide) hwidth).mpr h

theorem isBlank_of_isDigit {c : Char} (h : c.isDigit = true) : Text.isBlank c = false := by
  have hleast : 48 ≤ c.toNat := (Char.isDigit_iff_toNat.mp h).1
  have hgreatest : c.toNat ≤ 57 := (Char.isDigit_iff_toNat.mp h).2
  simp only [Text.isBlank, Text.blanks, List.contains_cons, List.contains_nil, Bool.or_false,
    Bool.or_eq_false_iff, beq_eq_false_iff_ne]
  omega

theorem skipBlanks_cons {c : Char} (h : Text.isBlank c = false) (rest : List Char) :
    skipBlanks (c :: rest) = c :: rest :=
  List.dropWhile_cons_of_neg (by simp [h])

/-- The text of a number begins with a digit. -/
theorem exists_padded (width number : Nat) :
    ∃ c digits, padded width number = c :: digits ∧ c.isDigit = true := by
  obtain ⟨c, digits, hdigits⟩ := List.exists_cons_of_ne_nil (padded_ne_nil width number)
  exact ⟨c, digits, hdigits, isDigit_of_mem_padded (hdigits ▸ List.mem_cons_self)⟩

theorem skipBlanks_padded (width number : Nat) (rest : List Char) :
    skipBlanks (padded width number ++ rest) = padded width number ++ rest := by
  obtain ⟨c, digits, hdigits, hc⟩ := exists_padded width number
  rw [hdigits, List.cons_append, skipBlanks_cons (isBlank_of_isDigit hc)]

/-- No digits go on at a separator. -/
theorem not_isDigit_head {separator : Char} (h : separator.isDigit = false) (rest : List Char) :
    ∀ c, (separator :: rest).head? = some c → c.isDigit = false := by
  rintro c ⟨⟩
  exact h

theorem digits?_padded {width bound number : Nat}
    (hlength : (padded width number).length ≤ bound)
    (hrest : ∀ c, rest.head? = some c → c.isDigit = false) :
    digits? bound (padded width number ++ rest) = some (number, rest) := by
  unfold digits?
  rw [takeWhile_digits (fun _ => isDigit_of_mem_padded) hrest, List.take_of_length_le hlength]
  simp [padded_ne_nil, ofDigits_padded]

theorem number?_padded {number : Nat} (h : number < 100)
    (hrest : ∀ c, rest.head? = some c → c.isDigit = false) :
    number? 2 (padded 2 number ++ rest) = some (number, rest) := by
  rw [number?, skipBlanks_padded]
  exact digits?_padded (length_padded (by decide) h).le hrest

theorem separator?_self {separator : Char} (h : Text.isBlank separator = false)
    (rest : List Char) : separator? separator (separator :: rest) = some rest := by
  rw [separator?, skipBlanks_cons h]
  exact if_pos (beq_self_eq_true separator)

/-! ## Days -/

/-- A year that begins with a digit has no sign. -/
theorem year?_of_digits {c : Char} {digits behind : List Char} {number : Nat}
    (hc : c.isDigit = true) (h : digits? 4 (c :: digits) = some (number, behind)) :
    year? (c :: digits) = some ((number : Int), behind) := by
  unfold year?
  rw [skipBlanks_cons (isBlank_of_isDigit hc)]
  split
  · next heq => exact absurd hc (by rw [(List.cons.inj heq).1]; decide)
  · next heq => exact absurd hc (by rw [(List.cons.inj heq).1]; decide)
  · rw [h]
    rfl

theorem year?_yearText (year : Int) (hrest : ∀ c, rest.head? = some c → c.isDigit = false) :
    year? (yearText year ++ rest) = some (year, rest) := by
  have hsigned : digits? (padded 4 year.natAbs ++ rest).length (padded 4 year.natAbs ++ rest) =
      some (year.natAbs, rest) := by
    refine digits?_padded ?_ hrest
    rw [List.length_append]
    exact Nat.le_add_right _ _
  unfold yearText
  split
  · next hplain =>
    have hdigits : digits? 4 (padded 4 year.natAbs ++ rest) = some (year.natAbs, rest) :=
      digits?_padded (length_padded (by decide) (by omega)).le hrest
    obtain ⟨c, digits, htext, hc⟩ := exists_padded 4 year.natAbs
    rw [htext, List.cons_append] at hdigits ⊢
    rw [year?_of_digits hc hdigits, Int.natAbs_of_nonneg hplain.1]
  · by_cases hnegative : year < 0
    · rw [if_pos hnegative, List.cons_append, year?, skipBlanks_cons (by decide)]
      show (digits? _ _).map _ = _
      rw [hsigned]
      exact congrArg some (Prod.ext (show -(year.natAbs : Int) = year by omega) rfl)
    · rw [if_neg hnegative, List.cons_append, year?, skipBlanks_cons (by decide)]
      show (digits? _ _).map _ = _
      rw [hsigned]
      exact congrArg some (Prod.ext (show (year.natAbs : Int) = year by omega) rfl)

theorem daysOfMonth_le (year : Int) (month : Nat) : daysOfMonth year month ≤ 31 := by
  unfold daysOfMonth
  split_ifs <;> decide

theorem day?_text {day : Day} (h : day.isValid = true)
    (hrest : ∀ c, rest.head? = some c → c.isDigit = false) :
    day? (day.text ++ rest) = some (day, rest) := by
  obtain ⟨hmonth, hday⟩ : day.month < 100 ∧ day.day < 100 := by
    have hmonths := daysOfMonth_le day.year day.month
    simp only [Day.isValid, Bool.and_eq_true, decide_eq_true_eq] at h
    omega
  have hdash := not_isDigit_head (rfl : '-'.isDigit = false)
  simp only [day?, Day.text, List.append_assoc, List.cons_append, year?_yearText _ (hdash _),
    separator?_self (by decide : Text.isBlank '-' = false), number?_padded hmonth (hdash _),
    number?_padded hday hrest, Option.bind_eq_bind, Option.bind_some, h, if_true]

/-! ## Times of day -/

theorem fraction?_padded {count number : Nat} (hcount : 0 < count) (hle : count ≤ nanoDigits)
    (h : number < 10 ^ count) (hrest : ∀ c, rest.head? = some c → c.isDigit = false) :
    fraction? ('.' :: (padded count number ++ rest)) =
      some (number * 10 ^ (nanoDigits - count), rest) := by
  have hlength := length_padded hcount h
  have hfilled : ofDigits ((padded count number).rightpad nanoDigits '0') =
      number * 10 ^ (nanoDigits - count) := by
    rw [List.rightpad, ofDigits_append, ofDigits_replicate_zero, List.length_replicate, hlength,
      ofDigits_padded, Nat.add_zero, Nat.mul_comm]
  show (let digits := List.take nanoDigits _; if digits.isEmpty then none else _) = _
  rw [takeWhile_digits (fun _ => isDigit_of_mem_padded) hrest,
    dropWhile_digits (fun _ => isDigit_of_mem_padded) hrest,
    List.take_of_length_le (hlength.le.trans hle), hfilled]
  simp [padded_ne_nil]

theorem fraction?_fractionText {nano : Nat} (h : nano < secondNanos)
    (hrest : ∀ c, rest.head? = some c → c.isDigit = false ∧ c ≠ '.') :
    fraction? (fractionText nano ++ rest) = some (nano, rest) := by
  have hnanos : nano < 1000000000 := h
  have hbehind : ∀ c, rest.head? = some c → c.isDigit = false := fun c hc => (hrest c hc).1
  unfold fractionText
  split_ifs with hzero hmilli hmicro
  · rw [hzero, List.nil_append]
    unfold fraction?
    split
    · exact absurd rfl (hrest '.' rfl).2
    · rfl
  · rw [List.cons_append, fraction?_padded (by decide) (by decide) (by omega) hbehind]
    exact congrArg some (Prod.ext (Nat.div_mul_cancel (Nat.dvd_of_mod_eq_zero hmilli)) rfl)
  · rw [List.cons_append, fraction?_padded (by decide) (by decide) (by omega) hbehind]
    exact congrArg some (Prod.ext (Nat.div_mul_cancel (Nat.dvd_of_mod_eq_zero hmicro)) rfl)
  · rw [List.cons_append, fraction?_padded (by decide) (by decide) hnanos hbehind]
    exact congrArg some (Prod.ext (Nat.mul_one nano) rfl)

/-- The hours, minutes and seconds that are written make up the second, and the nanoseconds of a
second more make it the last one of its minute. -/
theorem time_parts {second nano : Nat}
    (h : nano < secondNanos ∨ second % 60 = 59 ∧ nano < 2 * secondNanos) :
    second % 60 + nano / secondNanos ≤ 60 ∧
      60 * (60 * (second / 60 / 60) + second / 60 % 60) +
        min (second % 60 + nano / secondNanos) 59 = second ∧
      (if second % 60 + nano / secondNanos == 60 then secondNanos + nano % secondNanos
        else nano % secondNanos) = nano := by
  have hnanos : secondNanos = 1000000000 := rfl
  rw [hnanos] at h ⊢
  rcases Nat.lt_or_ge nano 1000000000 with hlt | hge
  · have hordinary : (second % 60 + nano / 1000000000 == 60) = false := by
      rw [beq_eq_false_iff_ne]
      omega
    rw [hordinary]
    exact ⟨by omega, by omega, Nat.mod_eq_of_lt hlt⟩
  · have hlonger : (second % 60 + nano / 1000000000 == 60) = true := by
      rw [beq_iff_eq]
      omega
    rw [hlonger, if_pos rfl]
    omega

theorem time?_timeText {second nano : Nat} (hsecond : second < daySeconds)
    (hnano : nano < secondNanos ∨ second % 60 = 59 ∧ nano < 2 * secondNanos)
    (hrest : ∀ c, rest.head? = some c → c.isDigit = false ∧ c ≠ '.') :
    time? (timeText second nano ++ rest) = some ((second, nano), rest) := by
  have hday : second < 86400 := hsecond
  have hcolon := not_isDigit_head (rfl : ':'.isDigit = false)
  have hpoint : ∀ c, (fractionText (nano % secondNanos) ++ rest).head? = some c →
      c.isDigit = false := by
    unfold fractionText
    split_ifs
    · exact fun c hc => (hrest c hc).1
    all_goals exact not_isDigit_head rfl _
  have hfraction := fraction?_fractionText (Nat.mod_lt nano (by decide : 0 < secondNanos)) hrest
  have hhour : second / 60 / 60 < 24 := by omega
  have hminute : second / 60 % 60 < 60 := by omega
  obtain ⟨hshown, hsum, hlonger⟩ := time_parts hnano
  simp only [time?, timeText, List.append_assoc, List.cons_append,
    number?_padded (hhour.trans (by decide)) (hcolon _),
    separator?_self (by decide : Text.isBlank ':' = false),
    number?_padded (hminute.trans (by decide)) (hcolon _),
    number?_padded (hshown.trans_lt (by decide)) hpoint, hfraction,
    Option.bind_eq_bind, Option.bind_some]
  rw [if_pos (by simp [hhour, hminute, hshown]), hsum, hlonger]

/-! ## Moments -/

theorem isMoment_iff {day : Day} {second nano : Nat} :
    isMoment day second nano = true ↔ day.isValid = true ∧ second < daySeconds ∧
      (nano < secondNanos ∨ second % 60 = 59 ∧ nano < 2 * secondNanos) := by
  simp [isMoment, and_assoc]

/-- A clock that shows universal time shows the moment. -/
theorem shown?_zero (moment : Timestamp) :
    shown? moment.day moment.second moment.nano 0 = some moment := by
  have hsecond : moment.second < daySeconds := (isMoment_iff.mp moment.valid).2.1
  have hnegative : ¬ ((moment.second : Int) - 0 < 0) := by omega
  have hsame : (moment.second : Int) - 0 < daySeconds := by omega
  have hmod : (((moment.second : Int) - 0) % daySeconds).toNat = moment.second := by
    rw [Int.sub_zero, ← Int.natCast_mod, Int.toNat_natCast, Nat.mod_eq_of_lt hsecond]
  unfold shown?
  simp only [if_neg hnegative, if_pos hsame, hmod, dif_pos moment.valid]

/-- The parts of a text are read one after the other. -/
theorem ofText?_eq {text : String} {day : Day} {mark front behind : List Char} {second nano : Nat}
    {offset : Int} (hday : day? text.toList = some (day, mark))
    (hmark : afterMark? mark = some front) (htime : time? front = some ((second, nano), behind))
    (hzone : zone? behind = some (offset, [])) :
    ofText? text = shown? day second nano offset := by
  simp only [ofText?, hday, hmark, htime, hzone, Option.bind_eq_bind, Option.bind_some]
  rfl

/-- **A moment is read from its text as it is.** -/
@[simp] theorem ofText?_text (moment : Timestamp) : ofText? moment.text = some moment := by
  obtain ⟨hvalid, hsecond, hnano⟩ := isMoment_iff.mp moment.valid
  have hmark := not_isDigit_head (rfl : 'T'.isDigit = false)
  have hzone : ∀ c, ['Z'].head? = some c → c.isDigit = false ∧ c ≠ '.' := by
    rintro c ⟨⟩
    exact ⟨rfl, by decide⟩
  have hday : day? moment.text.toList =
      some (moment.day, 'T' :: (timeText moment.second moment.nano ++ ['Z'])) := by
    rw [text, String.toList_ofList, List.append_assoc, List.cons_append]
    exact day?_text hvalid (hmark _)
  have htime := time?_timeText hsecond hnano hzone
  rw [ofText?_eq hday rfl htime (by decide : zone? ['Z'] = some (0, [])), shown?_zero]

/-- An offset is read off, and the text of the moment has none. -/
example :
    (ofText? "2024-01-01 01:00:00 +01:00").map text = some "2024-01-01T00:00:00Z" := by
  decide +kernel

end Timestamp

end Logbook
