import Logbook.Json.Basic

/-!
# Tokens of JSON

The tokens of a text keep strings and numbers as they are written: what the escapes of
a string spell, and how large a number is, does not matter before the value is needed.
-/

namespace Logbook

namespace Json

/-- A part of a string. -/
inductive Piece where
  /-- A character, or an escape of one letter. -/
  | char (c : Char)
  /-- The 16 bits of an escape of four hexadecimal digits. -/
  | unit (bits : Nat)

/-- A number as it is written: its sign, the digits in front of the point and behind
it, and the power of ten. -/
structure Numeral where
  /-- Whether there is a minus. -/
  negative : Bool
  /-- The digits in front of the point. -/
  whole : List Char
  /-- The digits behind the point. -/
  fraction : List Char
  /-- The power of ten, if there is one. -/
  power : Option Int

/-- A token of a text. -/
inductive Token where
  /-- The literal `null`. -/
  | null
  /-- A truth value. -/
  | bool (truth : Bool)
  /-- A number. -/
  | number (numeral : Numeral)
  /-- A string. -/
  | string (pieces : List Piece)
  /-- A comma. -/
  | comma
  /-- A colon. -/
  | colon
  /-- An opening bracket. -/
  | openArray
  /-- A closing bracket. -/
  | closeArray
  /-- An opening brace. -/
  | openObject
  /-- A closing brace. -/
  | closeObject

/-! ## Strings -/

/-- The value of a hexadecimal digit. -/
def hexValue? (c : Char) : Option Nat :=
  if c.isDigit then some (c.toNat - '0'.toNat)
  else if 'a' ≤ c && c ≤ 'f' then some (c.toNat - 'a'.toNat + 10)
  else if 'A' ≤ c && c ≤ 'F' then some (c.toNat - 'A'.toNat + 10)
  else none

/-- The number that hexadecimal digits spell. -/
def ofHex? (digits : List Char) : Option Nat :=
  digits.foldlM (fun number c => (hexValue? c).map (16 * number + ·)) 0

/-- What an escape of one letter stands for. -/
def simpleEscape? (c : Char) : Option Char :=
  [('"', '"'), ('\\', '\\'), ('/', '/'), ('b', '\x08'), ('f', '\x0c'), ('n', '\n'), ('r', '\r'),
    ('t', '\t')].lookup c

/-- The parts of a string up to its closing quote, and what follows it.  The parts so
far are given in reverse; control characters have to be escaped. -/
def pieces? : List Piece → List Char → Option (List Piece × List Char)
  | pieces, '"' :: rest => some (pieces.reverse, rest)
  | pieces, '\\' :: 'u' :: a :: b :: c :: d :: rest =>
      match ofHex? [a, b, c, d] with
      | some bits => pieces? (.unit bits :: pieces) rest
      | none => none
  | pieces, '\\' :: letter :: rest =>
      match simpleEscape? letter with
      | some c => pieces? (.char c :: pieces) rest
      | none => none
  | pieces, c :: rest =>
      if c == '\\' || c.toNat < 0x20 then none else pieces? (.char c :: pieces) rest
  | _, [] => none

/-! ## Numbers -/

/-- The exponent part of a number, if one stands here. -/
def exponent? : List Char → Option (Option Int × List Char)
  | mark :: rest =>
      if mark == 'e' || mark == 'E' then
        let (negative, rest) := match rest with
          | '-' :: rest => (true, rest)
          | '+' :: rest => (false, rest)
          | rest => (false, rest)
        let digits := rest.takeWhile Char.isDigit
        if digits.isEmpty then none
        else
          let power : Int := Decimal.ofDigits digits
          some (some (if negative then -power else power), rest.drop digits.length)
      else some (none, mark :: rest)
  | [] => some (none, [])

/-- The fraction part of a number, if one stands here. -/
def fraction? : List Char → Option (List Char × List Char)
  | '.' :: rest =>
      let digits := rest.takeWhile Char.isDigit
      if digits.isEmpty then none else some (digits, rest.drop digits.length)
  | rest => some ([], rest)

/-- The number whose sign has been read; a leading zero stands alone. -/
def numeral? (negative : Bool) (input : List Char) : Option (Numeral × List Char) := do
  let whole := input.takeWhile Char.isDigit
  if whole.isEmpty || (whole.head? == some '0' && whole.length != 1) then none
  else
    let (fraction, rest) ← fraction? (input.drop whole.length)
    let (power, rest) ← exponent? rest
    some (⟨negative, whole, fraction, power⟩, rest)

/-! ## Tokens -/

/-- The white space of JSON. -/
def isSpace (c : Char) : Bool := c == ' ' || c == '\t' || c == '\n' || c == '\r'

/-- What follows a word, if the text starts with it. -/
def afterWord? : List Char → List Char → Option (List Char)
  | [], input => some input
  | c :: word, d :: input => if c == d then afterWord? word input else none
  | _ :: _, [] => none

/-- The token that begins with a character, and what follows it. -/
def token? (c : Char) (rest : List Char) : Option (Token × List Char) :=
  match c with
  | ',' => some (.comma, rest)
  | ':' => some (.colon, rest)
  | '[' => some (.openArray, rest)
  | ']' => some (.closeArray, rest)
  | '\x7b' => some (.openObject, rest)
  | '\x7d' => some (.closeObject, rest)
  | '"' => (pieces? [] rest).map fun (pieces, rest) => (.string pieces, rest)
  | '-' => (numeral? true rest).map fun (numeral, rest) => (.number numeral, rest)
  | 'n' => (afterWord? "ull".toList rest).map fun rest => (.null, rest)
  | 't' => (afterWord? "rue".toList rest).map fun rest => (.bool true, rest)
  | 'f' => (afterWord? "alse".toList rest).map fun rest => (.bool false, rest)
  | c => (numeral? false (c :: rest)).map fun (numeral, rest) => (.number numeral, rest)

/-- The tokens of a text behind those so far, which are given in reverse.  Every step
takes a character, so `fuel` has to be more than there are. -/
def tokensFrom? : (fuel : Nat) → List Token → List Char → Option (List Token)
  | _, tokens, [] => some tokens.reverse
  | 0, _, _ => none
  | fuel + 1, tokens, c :: rest =>
      if isSpace c then tokensFrom? fuel tokens rest
      else match token? c rest with
        | some (token, rest) => tokensFrom? fuel (token :: tokens) rest
        | none => none

/-- The tokens of a text; `none` if it is not made of tokens. -/
def tokens? (text : String) : Option (List Token) :=
  let input := text.toList
  tokensFrom? (input.length + 1) [] input

end Json

end Logbook
