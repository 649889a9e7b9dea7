import Logbook.Json.Reader
import Logbook.SortedMap.Basic
import Logbook.Value.Basic

/-!
# Values and JSON

JSON has fewer kinds than values: a double that is not a number or infinite is
written as null, and an artifact as the path of its payload.  Reading back what
was written changes nothing else.
-/

namespace Logbook

namespace Value

/-- The map of a list of entries; of entries with one key the last counts. -/
def ofEntries (entries : List (String × Value)) : Value :=
  .map (SortedMap.ofList entries).entries

/-- The value of an integer; one beyond 64 signed bits becomes a double. -/
def ofInteger (number : Int) : Value :=
  match Integer.int64? number with
  | some integer => int integer
  | none => float (.ofInt number)

mutual

/-- The value that a JSON document stands for. -/
def ofJson : Json → Value
  | .null => null
  | .bool truth => bool truth
  | .integer number => ofInteger number
  | .float number => float number
  | .string text => str text
  | .array items => list (ofJsonItems items)
  | .object members => ofEntries (ofJsonMembers members)

/-- The values of the items of an array. -/
def ofJsonItems : List Json → List Value
  | [] => []
  | item :: items => ofJson item :: ofJsonItems items

/-- The values of the members of an object. -/
def ofJsonMembers : List (String × Json) → List (String × Value)
  | [] => []
  | (key, value) :: members => (key, ofJson value) :: ofJsonMembers members

end

mutual

/-- The JSON document of a value. -/
def toJson : Value → Json
  | null => .null
  | bool truth => .bool truth
  | int number => .integer number.toInt
  | float number => if number.isFinite then .float number else .null
  | str text => .string text
  | list items => .array (toJsonItems items)
  | map entries => .object (toJsonMembers entries)
  | artifact handle => .string handle.path.text

/-- The JSON documents of the items of a list. -/
def toJsonItems : List Value → List Json
  | [] => []
  | item :: items => item.toJson :: toJsonItems items

/-- The members of the object of a map. -/
def toJsonMembers : List (String × Value) → List (String × Json)
  | [] => []
  | (key, value) :: entries => (key, value.toJson) :: toJsonMembers entries

end

end Value

end Logbook
