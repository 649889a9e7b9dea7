import Logbook.Json.Draft

/-!
# Reading JSON

The reader is strict: one document with white space around it and nothing else.
It refuses control characters and unpaired surrogate escapes in strings, numbers
too large for a double, and documents nested deeper than `maxDepth`.
-/

namespace Logbook

namespace Json

/-- How deep arrays and objects may be nested. -/
def maxDepth : Nat := 127

namespace Draft

mutual

/-- The document of a draft that may nest so deep. -/
def resolve? (depth : Nat) : Draft → Option Json
  | null => some .null
  | bool truth => some (.bool truth)
  | number numeral => numeral.value?
  | string pieces => (text? pieces).map .string
  | array items => if depth == 0 then none else (resolveItems? (depth - 1) items).map .array
  | object members => if depth == 0 then none else (resolveMembers? (depth - 1) members).map .object

/-- The documents of items. -/
def resolveItems? (depth : Nat) : List Draft → Option (List Json)
  | [] => some []
  | item :: items => do
      let item ← item.resolve? depth
      let items ← resolveItems? depth items
      some (item :: items)

/-- The members of an object. -/
def resolveMembers? (depth : Nat) : List (List Piece × Draft) → Option (List (String × Json))
  | [] => some []
  | (key, value) :: members => do
      let key ← text? key
      let value ← value.resolve? depth
      let members ← resolveMembers? depth members
      some ((key, value) :: members)

end

end Draft

/-- Reads a JSON document. -/
def read (text : String) : Option Json := (Draft.read text).bind (Draft.resolve? maxDepth)

end Json

end Logbook
