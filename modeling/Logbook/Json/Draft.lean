import Logbook.Json.Number

/-!
# JSON documents before their values are known

A draft has the shape of a document, but its strings and numbers are as they are
written.  A reader that skips a member never looks at its value, so what is wrong
inside, such as a number too large for a double, does not matter there.
-/

namespace Logbook

namespace Json

/-- A document as it is written. -/
inductive Draft where
  /-- The literal `null`. -/
  | null
  /-- A truth value. -/
  | bool (truth : Bool)
  /-- A number. -/
  | number (numeral : Numeral)
  /-- A string. -/
  | string (pieces : List Piece)
  /-- An array. -/
  | array (items : List Draft)
  /-- An object. -/
  | object (members : List (List Piece × Draft))

/-! ## Reading drafts -/

namespace Draft

/-- An array or an object of which the end has not been read, with what it holds so far
in reverse. -/
inductive Frame where
  /-- An array. -/
  | array (items : List Draft)
  /-- An object, and the key of the value that comes next. -/
  | object (members : List (List Piece × Draft)) (key : List Piece)

/-- The document that tokens spell inside the given arrays and objects, the innermost
first.  `last` is the value that has just ended, if one has. -/
def ofTokens? : (last : Option Draft) → List Frame → List Token → Option Draft
  | some last, [], [] => some last
  | some last, .array items :: frames, .comma :: rest =>
      ofTokens? none (.array (last :: items) :: frames) rest
  | some last, .array items :: frames, .closeArray :: rest =>
      ofTokens? (some (.array (last :: items).reverse)) frames rest
  | some last, .object members key :: frames, .comma :: .string next :: .colon :: rest =>
      ofTokens? none (.object ((key, last) :: members) next :: frames) rest
  | some last, .object members key :: frames, .closeObject :: rest =>
      ofTokens? (some (.object ((key, last) :: members).reverse)) frames rest
  | none, frames, .null :: rest => ofTokens? (some .null) frames rest
  | none, frames, .bool truth :: rest => ofTokens? (some (.bool truth)) frames rest
  | none, frames, .number numeral :: rest => ofTokens? (some (.number numeral)) frames rest
  | none, frames, .string pieces :: rest => ofTokens? (some (.string pieces)) frames rest
  | none, frames, .openArray :: .closeArray :: rest => ofTokens? (some (.array [])) frames rest
  | none, frames, .openArray :: rest => ofTokens? none (.array [] :: frames) rest
  | none, frames, .openObject :: .closeObject :: rest => ofTokens? (some (.object [])) frames rest
  | none, frames, .openObject :: .string key :: .colon :: rest =>
      ofTokens? none (.object [] key :: frames) rest
  | _, _, _ => none

/-- Reads a document as it is written. -/
def read (text : String) : Option Draft := (tokens? text).bind (ofTokens? none [])

end Draft

/-! ## Strings -/

/-- The characters of a string.  Units that are surrogates have to come in pairs. -/
def chars? : List Piece → Option (List Char)
  | [] => some []
  | .char c :: rest => (chars? rest).map (c :: ·)
  | .unit high :: .unit low :: rest =>
      if 0xD800 ≤ high && high < 0xDC00 then
        if 0xDC00 ≤ low && low < 0xE000 then
          let c := Char.ofNat (0x10000 + (high - 0xD800) * 0x400 + (low - 0xDC00))
          (chars? rest).map (c :: ·)
        else none
      else if 0xDC00 ≤ high && high < 0xE000 then none
      else (chars? (.unit low :: rest)).map (Char.ofNat high :: ·)
  | .unit bits :: rest =>
      if 0xD800 ≤ bits && bits < 0xE000 then none
      else (chars? rest).map (Char.ofNat bits :: ·)

/-- The text of a string. -/
def text? (pieces : List Piece) : Option String := (chars? pieces).map String.ofList

/-- The text of a string that spells no character by its number. -/
def literalText? (pieces : List Piece) : Option String :=
  let char? : Piece → Option Char
    | .char c => some c
    | .unit _ => none
  (pieces.mapM char?).map String.ofList

end Json

end Logbook
