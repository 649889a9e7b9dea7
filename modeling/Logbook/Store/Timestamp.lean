import Logbook.Binary64.Text
import Logbook.Text.Blank

/-!
# Moments

A snapshot says when it was made.  A moment is a second of a day by universal time, and a
fraction of it.

Its text is a date, a `T` or a blank, a time of day with an optional fraction of a second, and
the offset from universal time, which is `Z`, `UTC` or hours and minutes with a sign.  Blanks may
stand in front of every part and in front of every separator.  Whatever offset and layout a text
has, it is read as the moment by universal time, and a moment is written in one layout only.
-/

namespace Logbook

namespace Timestamp

/-- The text after blanks. -/
def skipBlanks (input : List Char) : List Char := input.dropWhile Text.isBlank

/-- A number of at most so many digits, and what follows. -/
def digits? (width : Nat) (input : List Char) : Option (Nat × List Char) :=
  let digits := (input.takeWhile Char.isDigit).take width
  if digits.isEmpty then none else some (Decimal.ofDigits digits, input.drop digits.length)

/-- A number of at most so many digits after blanks, and what follows. -/
def number? (width : Nat) (input : List Char) : Option (Nat × List Char) :=
  digits? width (skipBlanks input)

/-- What follows a separator, with blanks before it. -/
def separator? (separator : Char) (input : List Char) : Option (List Char) :=
  match skipBlanks input with
  | c :: rest => if c == separator then some rest else none
  | [] => none

/-- A year of four digits, or of any number of digits after a sign. -/
def year? (input : List Char) : Option (Int × List Char) :=
  match skipBlanks input with
  | '+' :: rest => (digits? rest.length rest).map fun (year, rest) => ((year : Int), rest)
  | '-' :: rest => (digits? rest.length rest).map fun (year, rest) => (-(year : Int), rest)
  | rest => (digits? 4 rest).map fun (year, rest) => ((year : Int), rest)

/-- Whether a year has a day more. -/
def isLeap (year : Int) : Bool := year % 4 == 0 && (year % 100 != 0 || year % 400 == 0)

/-- The number of days of a month. -/
def daysOfMonth (year : Int) (month : Nat) : Nat :=
  if month == 2 then (if isLeap year then 29 else 28)
  else if [4, 6, 9, 11].contains month then 30
  else 31

/-- A day of the calendar. -/
structure Day where
  /-- The year. -/
  year : Int
  /-- The month, from one. -/
  month : Nat
  /-- The day of the month, from one. -/
  day : Nat
  deriving DecidableEq

/-- The first year of the calendar. -/
def firstYear : Int := -262143

/-- The last year of the calendar. -/
def lastYear : Int := 262142

namespace Day

/-- Whether a day is in the calendar. -/
def isValid (day : Day) : Bool :=
  firstYear ≤ day.year && day.year ≤ lastYear && 1 ≤ day.month && day.month ≤ 12
    && 1 ≤ day.day && day.day ≤ daysOfMonth day.year day.month

/-- The day before. -/
def previous (day : Day) : Day :=
  if 1 < day.day then { day with day := day.day - 1 }
  else if 1 < day.month then ⟨day.year, day.month - 1, daysOfMonth day.year (day.month - 1)⟩
  else ⟨day.year - 1, 12, 31⟩

/-- The day after. -/
def next (day : Day) : Day :=
  if day.day < daysOfMonth day.year day.month then { day with day := day.day + 1 }
  else if day.month < 12 then ⟨day.year, day.month + 1, 1⟩
  else ⟨day.year + 1, 1, 1⟩

end Day

/-- A day and what follows it. -/
def day? (input : List Char) : Option (Day × List Char) := do
  let (year, rest) ← year? input
  let (month, rest) ← number? 2 (← separator? '-' rest)
  let (day, rest) ← number? 2 (← separator? '-' rest)
  let day : Day := ⟨year, month, day⟩
  if day.isValid then some (day, rest) else none

/-- The number of seconds of a day. -/
def daySeconds : Nat := 86400

/-- The number of digits of a fraction of a second that count. -/
def nanoDigits : Nat := 9

/-- The number of nanoseconds of a second. -/
def secondNanos : Nat := 1000000000

/-- The nanoseconds of a fraction of a second, if there is one, and what follows it.  Further
digits do not count. -/
def fraction? : List Char → Option (Nat × List Char)
  | '.' :: rest =>
      let digits := (rest.takeWhile Char.isDigit).take nanoDigits
      if digits.isEmpty then none
      else some (Decimal.ofDigits (digits.rightpad nanoDigits '0'), rest.dropWhile Char.isDigit)
  | rest => some (0, rest)

/-- A second of a day with its nanoseconds, and what follows it.  A minute may have a second
more, which is counted by the nanoseconds of its last one. -/
def time? (input : List Char) : Option ((Nat × Nat) × List Char) := do
  let (hour, rest) ← number? 2 input
  let (minute, rest) ← number? 2 (← separator? ':' rest)
  let (second, rest) ← number? 2 (← separator? ':' rest)
  let (nano, rest) ← fraction? rest
  if hour < 24 && minute < 60 && second ≤ 60 then
    some ((60 * (60 * hour + minute) + min second 59,
      if second == 60 then secondNanos + nano else nano), rest)
  else none

/-- Exactly two digits and what follows them. -/
def twoDigits? : List Char → Option (Nat × List Char)
  | tens :: ones :: rest =>
      if tens.isDigit && ones.isDigit then some (Decimal.ofDigits [tens, ones], rest) else none
  | _ => none

/-- Hours and minutes of an offset in seconds, and what follows them. -/
def offset? (input : List Char) : Option (Nat × List Char) := do
  let (hours, rest) ← twoDigits? input
  let (minutes, rest) ← twoDigits? (rest.dropWhile fun c => c == ':' || Text.isBlank c)
  if hours < 24 && minutes < 60 then some (60 * (60 * hours + minutes), rest) else none

/-- An offset from universal time in seconds, and what follows it. -/
def zone? (input : List Char) : Option (Int × List Char) :=
  match skipBlanks input with
  | [] => none
  | sign :: rest =>
      let input := sign :: rest
      if Text.sameIgnoringCase (String.ofList (input.take 3)) "utc" then some (0, input.drop 3)
      else if sign == 'Z' || sign == 'z' then some (0, rest)
      else if sign == '+' then (offset? rest).map fun (offset, rest) => ((offset : Int), rest)
      else if sign == '-' || sign == '−' then
        (offset? rest).map fun (offset, rest) => (-(offset : Int), rest)
      else none

/-- Whether there is such a moment.  The last second of a minute may be twice as long. -/
def isMoment (day : Day) (second nano : Nat) : Bool :=
  day.isValid && second < daySeconds
    && (nano < secondNanos || (second % 60 == 59 && nano < 2 * secondNanos))

end Timestamp

/-- A moment by universal time. -/
structure Timestamp where
  /-- The day. -/
  day : Timestamp.Day
  /-- The second of the day. -/
  second : Nat
  /-- The nanoseconds that have passed of the second. -/
  nano : Nat
  /-- There is such a moment. -/
  valid : Timestamp.isMoment day second nano = true
  deriving DecidableEq

namespace Timestamp

/-- The moment at which a clock shows a day and a second of it, where the clock is so many
seconds ahead of universal time. -/
def shown? (day : Day) (second nano : Nat) (offset : Int) : Option Timestamp :=
  let universal : Int := second - offset
  let day :=
    if universal < 0 then day.previous else if universal < daySeconds then day else day.next
  let second := (universal % daySeconds).toNat
  if valid : isMoment day second nano = true then some ⟨day, second, nano, valid⟩ else none

/-- What follows the mark between the date and the time of day. -/
def afterMark? : List Char → Option (List Char)
  | 'T' :: rest | 't' :: rest | ' ' :: rest => some rest
  | _ => none

/-- The moment that a text says. -/
def ofText? (text : String) : Option Timestamp := do
  let (day, rest) ← day? text.toList
  let ((second, nano), rest) ← time? (← afterMark? rest)
  let (offset, rest) ← zone? rest
  if (skipBlanks rest).isEmpty then shown? day second nano offset else none

/-- The digits of a number, with zeros in front of them up to a width. -/
def padded (width number : Nat) : List Char := (Nat.toDigits 10 number).leftpad width '0'

/-- A year of four digits, or with its sign and at least four digits. -/
def yearText (year : Int) : List Char :=
  if 0 ≤ year ∧ year ≤ 9999 then padded 4 year.natAbs
  else (if year < 0 then '-' else '+') :: padded 4 year.natAbs

/-- The date of a day. -/
def Day.text (day : Day) : List Char :=
  yearText day.year ++ '-' :: padded 2 day.month ++ '-' :: padded 2 day.day

/-- The point and three, six or nine digits of a fraction of a second, unless it is zero. -/
def fractionText (nano : Nat) : List Char :=
  if nano = 0 then []
  else if nano % 1000000 = 0 then '.' :: padded 3 (nano / 1000000)
  else if nano % 1000 = 0 then '.' :: padded 6 (nano / 1000)
  else '.' :: padded 9 nano

/-- The time of day of a second with its nanoseconds. -/
def timeText (second nano : Nat) : List Char :=
  padded 2 (second / 60 / 60) ++ ':' :: padded 2 (second / 60 % 60)
    ++ ':' :: padded 2 (second % 60 + nano / secondNanos) ++ fractionText (nano % secondNanos)

/-- The text of a moment. -/
def text (moment : Timestamp) : String :=
  String.ofList (moment.day.text ++ 'T' :: timeText moment.second moment.nano ++ ['Z'])

/-- The moment from which clocks count. -/
def epoch : Timestamp := ⟨⟨1970, 1, 1⟩, 0, 0, by decide⟩

instance : Inhabited Timestamp := ⟨epoch⟩

end Timestamp

end Logbook
