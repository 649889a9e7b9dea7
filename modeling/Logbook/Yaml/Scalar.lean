import Logbook.Yaml.Token.Basic
import Logbook.Yaml.Tree

/-!
# Plain scalars

A scalar without quotes is null, a truth value, a number or a text, by its
spelling.  A run of digits with a leading zero is a text, so that identifiers such
as `007` survive; so is everything that is none of the others.
-/

namespace Logbook

namespace Yaml

/-- The spellings of null. -/
def isNull (text : String) : Bool := ["null", "Null", "NULL", "~"].contains text

/-- The truth value of a spelling. -/
def bool? (text : String) : Option Bool :=
  if ["true", "True", "TRUE"].contains text then some true
  else if ["false", "False", "FALSE"].contains text then some false
  else none

/-- The value of a digit in bases up to sixteen. -/
def digit? (base : Nat) (c : Char) : Option Nat :=
  let value? :=
    if c.isDigit then some (c.toNat - '0'.toNat)
    else if 'a' ≤ c && c ≤ 'f' then some (c.toNat - 'a'.toNat + 10)
    else if 'A' ≤ c && c ≤ 'F' then some (c.toNat - 'A'.toNat + 10)
    else none
  value?.filter (· < base)

/-- The number that digits of a base spell; there has to be a digit. -/
def ofDigits? (base : Nat) (digits : List Char) : Option Nat :=
  if digits.isEmpty then none
  else digits.foldlM (fun number c => (digit? base c).map (base * number + ·)) 0

/-- Whether a text is a run of digits with a leading zero and possibly a sign. -/
def isPaddedDigits (text : List Char) : Bool :=
  let digits := match text with
    | '-' :: digits => digits
    | '+' :: digits => digits
    | digits => digits
  digits.length > 1 && digits.head? == some '0' && digits.all Char.isDigit

/-- The number without a sign that a text spells, in one of four bases. -/
def natural? (text : List Char) : Option Nat :=
  match text with
  | '0' :: 'x' :: digits => ofDigits? 16 digits
  | '0' :: 'o' :: digits => ofDigits? 8 digits
  | '0' :: 'b' :: digits => ofDigits? 2 digits
  | digits => if isPaddedDigits digits then none else ofDigits? 10 digits

/-- The integer that a text spells, of any size. -/
def integer? (text : List Char) : Option Int :=
  match text with
  | '-' :: digits => (natural? digits).map fun number => -(number : Int)
  | '+' :: digits => (natural? digits).map Int.ofNat
  | digits => (natural? digits).map Int.ofNat

/-- The double that a text spells.  Infinities and not-a-number have spellings of
their own; a decimal number too large for a double is no number. -/
def float? (text : String) : Option Binary64 :=
  if [".inf", ".Inf", ".INF", "+.inf", "+.Inf", "+.INF"].contains text then some (.infinite false)
  else if ["-.inf", "-.Inf", "-.INF"].contains text then some (.infinite true)
  else if [".nan", ".NaN", ".NAN"].contains text then some (.nan false)
  else (Binary64.ofText? text).filter Binary64.isFinite

/-- The double or the text that a plain scalar stands for. -/
def floatOrText (text : String) : Tree :=
  if isPaddedDigits text.toList then .text text
  else match float? text with
    | some number => .float number
    | none => .text text

/-- The tree of a plain scalar.  An integer beyond 64 bits is refused; one beyond
128 bits is read as a double. -/
def plain? (text : String) : Option Tree :=
  if text == "" || isNull text then some .null
  else match bool? text with
    | some truth => some (.bool truth)
    | none =>
        match integer? text.toList with
        | some number =>
            if Integer.fits64 number then some (.integer number)
            else if Integer.fits128 number then none
            else some (floatOrText text)
        | none => some (floatOrText text)

/-- The tags of the kinds that YAML knows. -/
def coreTag (kind : String) : Octets := octets ("tag:yaml.org,2002:" ++ kind)

/-- The tree of a scalar whose tag is not one of the application.  A tag of a core
kind asks for that kind; any other leaves a text. -/
def tagged? (tag : Octets) (text : String) : Option Tree :=
  if tag == coreTag "bool" then (bool? text).map .bool
  else if tag == coreTag "int" then
    (integer? text.toList).bind fun number =>
      if Integer.fits64 number then some (.integer number) else none
  else if tag == coreTag "float" then (float? text).map .float
  else if tag == coreTag "null" then if isNull text then some .null else none
  else some (.text text)

end Yaml

end Logbook
