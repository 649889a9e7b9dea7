import Logbook.Binary64.Rounding
import Logbook.Binary64.Shortest

/-!
# Doubles as text

A double is written with its shortest digits.  Where the decimal point stands
free and how an exponent looks is the choice of a `FloatStyle`, of which this
module has the three that occur: in messages, in JSON and in YAML.

In the other direction `Decimal.ofText?` reads a number in decimal or scientific
notation, and the nearest double is taken from it.
-/

namespace Logbook

/-- How the digits of a double are laid out. -/
structure FloatStyle where
  /-- The least decimal exponent that is written without an exponent part. -/
  leastPlain : Int
  /-- Whether a positive exponent carries its sign. -/
  plusSign : Bool
  /-- Which of two equally short and near decimals is written. -/
  tie : Tie
  /-- The text of not-a-number, whatever its sign. -/
  nan : String
  /-- The text of positive infinity. -/
  infinity : String

namespace FloatStyle

/-- The decimal exponent from which on an exponent part is written. -/
def firstLarge : Int := 16

/-- Numbers in messages and tables: plain from `0.0001` on. -/
def display : FloatStyle := ⟨-4, false, .away, "NaN", "inf"⟩

/-- Numbers in JSON: plain from `0.00001` on, and a positive exponent has a sign.
JSON has no text for the other doubles; they are written as `null`. -/
def json : FloatStyle := ⟨-5, true, .even, "null", "null"⟩

/-- Numbers in YAML. -/
def yaml : FloatStyle := ⟨-5, false, .even, ".nan", ".inf"⟩

/-- Digits with a decimal point, at least one digit standing on either side. -/
def plain (digits : List Char) (power : Int) : List Char :=
  let whole : Int := digits.length + power
  if 0 ≤ power then digits ++ List.replicate power.toNat '0' ++ ['.', '0']
  else if 0 < whole then digits.take whole.toNat ++ '.' :: digits.drop whole.toNat
  else '0' :: '.' :: List.replicate (-whole).toNat '0' ++ digits

/-- Digits with an exponent part, the point after the first digit and only where
a digit follows it. -/
def scientific (plusSign : Bool) (digits : List Char) (exponent : Int) : List Char :=
  let fraction := if digits.length ≤ 1 then [] else '.' :: digits.drop 1
  let sign := if exponent < 0 then ['-'] else if plusSign then ['+'] else []
  digits.take 1 ++ fraction ++ 'e' :: sign ++ Nat.toDigits 10 exponent.natAbs

/-- A decimal in the given style. -/
def decimal (style : FloatStyle) (number : Decimal) : List Char :=
  let digits := Nat.toDigits 10 number.digits
  let exponent := number.power + digits.length - 1
  if style.leastPlain ≤ exponent && exponent < firstLarge then plain digits number.power
  else scientific style.plusSign digits exponent

end FloatStyle

/-- The text of a double in the given style. -/
def Binary64.render (style : FloatStyle) : Binary64 → String
  | .nan _ => style.nan
  | .infinite negative => (if negative then "-" else "") ++ style.infinity
  | .finite negative mantissa exponent _ =>
      (if negative then "-" else "") ++
        String.ofList (style.decimal (Binary64.shortest style.tie mantissa exponent))

namespace Decimal

/-- The value of a digit character; only meant for digits. -/
def digitValue (digit : Char) : Nat := digit.toNat - '0'.toNat

/-- The number that decimal digits spell. -/
def ofDigits (digits : List Char) : Nat :=
  digits.foldl (fun number digit => 10 * number + digitValue digit) 0

/-- An integer with an optional sign and at least one digit. -/
def signedDigits? : List Char → Option Int
  | '-' :: digits => (natural? digits).map fun number => -(number : Int)
  | '+' :: digits => (natural? digits).map Int.ofNat
  | digits => (natural? digits).map Int.ofNat
where
  natural? (digits : List Char) : Option Nat :=
    if !digits.isEmpty && digits.all Char.isDigit then some (ofDigits digits) else none

/-- A number without a sign: digits with an optional point among or beside them,
and an optional exponent part. -/
def unsigned? (text : List Char) : Option Decimal :=
  let whole := text.takeWhile Char.isDigit
  let afterWhole := text.drop whole.length
  let (fraction, rest) := match afterWhole with
    | '.' :: tail =>
        let fraction := tail.takeWhile Char.isDigit
        (fraction, tail.drop fraction.length)
    | _ => ([], afterWhole)
  if whole.isEmpty && fraction.isEmpty then none
  else
    let number (power : Int) : Decimal := ⟨ofDigits (whole ++ fraction), power - fraction.length⟩
    match rest with
    | [] => some (number 0)
    | mark :: exponent =>
        if mark == 'e' || mark == 'E' then (signedDigits? exponent).map number else none

/-- The double nearest to a decimal of the given sign. -/
def toBinary64 (negative : Bool) (number : Decimal) : Binary64 :=
  Binary64.ofDecimal negative number.digits number.power

end Decimal

/-- Reads a finite decimal number with an optional sign and takes the nearest
double, which is infinite for a number that is too large. -/
def Binary64.ofText? (text : String) : Option Binary64 :=
  match text.toList with
  | '-' :: number => (Decimal.unsigned? number).map (Decimal.toBinary64 true)
  | '+' :: number => (Decimal.unsigned? number).map (Decimal.toBinary64 false)
  | number => (Decimal.unsigned? number).map (Decimal.toBinary64 false)

end Logbook
