import Logbook.Binary64.Text
import Logbook.Path

/-!
# Values of fields

A field of a run holds a `Value`: what metadata and logs can spell, or the handle
of an artifact.  Two values are equal when they mean the same: an integer equals
the double of the same number, any two not-a-numbers are equal, and artifacts are
equal when their payloads lie in the same place.
-/

namespace Logbook

/-- How the payload of an artifact is stored. -/
inductive Codec where
  /-- A JSON document. -/
  | json
  /-- Plain text. -/
  | text
  /-- Plain text, in capital ASCII letters on both ways. -/
  | capitals
  deriving DecidableEq, Repr

/-- The handle of an artifact that a run has saved. -/
structure Artifact where
  /-- The name under which the run saved it. -/
  name : String
  /-- The type, which selects the codec. -/
  kind : String
  /-- Where the payload lies. -/
  path : Path
  /-- How the payload is stored. -/
  codec : Codec
  deriving DecidableEq

/-- What a field holds. -/
inductive Value where
  /-- No value. -/
  | null
  /-- A truth value. -/
  | bool (truth : Bool)
  /-- An integer. -/
  | int (number : Int64)
  /-- A floating-point number. -/
  | float (number : Binary64)
  /-- A text. -/
  | str (text : String)
  /-- A list, such as a series of measurements. -/
  | list (items : List Value)
  /-- Entries under keys, in ascending key order. -/
  | map (entries : List (String × Value))
  /-- The handle of an artifact. -/
  | artifact (handle : Artifact)

namespace Value

instance : Inhabited Value := ⟨.null⟩

/-- The name of a value's type. -/
def typeName : Value → String
  | null => "null"
  | bool _ => "bool"
  | int _ => "int"
  | float _ => "float"
  | str _ => "str"
  | list _ => "list"
  | map _ => "dict"
  | artifact _ => "artifact"

/-- Whether there is no value. -/
def isNull : Value → Bool
  | null => true
  | _ => false

/-- The number that a value holds, an integer rounded to the nearest double. -/
def toBinary64? : Value → Option Binary64
  | int number => some (.ofInt number.toInt)
  | float number => some number
  | _ => none

/-- The integer that a value holds. -/
def toInt64? : Value → Option Int64
  | int number => some number
  | _ => none

/-- The truth value that a value holds. -/
def toBool? : Value → Option Bool
  | bool truth => some truth
  | _ => none

/-- The text that a value holds. -/
def toText? : Value → Option String
  | str text => some text
  | _ => none

/-- The items that a value holds. -/
def toItems? : Value → Option (List Value)
  | list items => some items
  | _ => none

/-- The entries that a value holds. -/
def toEntries? : Value → Option (List (String × Value))
  | map entries => some entries
  | _ => none

/-- Whether a value counts as true: null, zeros and empty things do not. -/
def isTruthy : Value → Bool
  | null => false
  | bool truth => truth
  | int number => number != 0
  | float number => !number.sameNumber 0
  | str text => text != ""
  | list items => !items.isEmpty
  | map entries => !entries.isEmpty
  | artifact _ => true

mutual

/-- Whether two values mean the same. -/
def same : Value → Value → Bool
  | null, null => true
  | bool left, bool right => left == right
  | int left, int right => left == right
  | int left, float right => right.compareInt left == .eq
  | float left, int right => left.compareInt right == .eq
  | float left, float right => left.sameNumber right
  | str left, str right => left == right
  | list left, list right => sameItems left right
  | map left, map right => sameEntries left right
  | artifact left, artifact right => left.path.same right.path
  | _, _ => false

/-- Whether two lists have the same items. -/
def sameItems : List Value → List Value → Bool
  | [], [] => true
  | left :: lefts, right :: rights => left.same right && sameItems lefts rights
  | _, _ => false

/-- Whether two lists have the same entries. -/
def sameEntries : List (String × Value) → List (String × Value) → Bool
  | [], [] => true
  | (leftKey, left) :: lefts, (rightKey, right) :: rights =>
      leftKey == rightKey && left.same right && sameEntries lefts rights
  | _, _ => false

end

instance : BEq Value := ⟨same⟩

/-- The place of a value's type in the order of values; numbers share one. -/
def rank : Value → Nat
  | null => 0
  | bool _ => 1
  | int _ => 2
  | float _ => 2
  | str _ => 3
  | list _ => 4
  | map _ => 5
  | artifact _ => 6

mutual

/-- The total order of values: null, truth values, numbers, texts, lists, maps,
artifacts.  Lists and maps are compared item by item. -/
def order : Value → Value → Ordering
  | bool left, bool right => compare left right
  | int left, int right => compare left.toInt right.toInt
  | int left, float right => right.compareInt left
  | float left, int right => (left.compareInt right).swap
  | float left, float right => left.order right
  | str left, str right => compare left right
  | list left, list right => orderItems left right
  | map left, map right => orderEntries left right
  | artifact left, artifact right => left.path.order right.path
  | left, right => compare left.rank right.rank

/-- Lists in the order of their first differing items, a shorter one first. -/
def orderItems : List Value → List Value → Ordering
  | [], [] => .eq
  | [], _ :: _ => .lt
  | _ :: _, [] => .gt
  | left :: lefts, right :: rights => (left.order right).then (orderItems lefts rights)

/-- Maps in the order of their first differing entries, by key and then value. -/
def orderEntries : List (String × Value) → List (String × Value) → Ordering
  | [], [] => .eq
  | [], _ :: _ => .lt
  | _ :: _, [] => .gt
  | (leftKey, left) :: lefts, (rightKey, right) :: rights =>
      ((compare leftKey rightKey).then (left.order right)).then (orderEntries lefts rights)

end

instance : Ord Value := ⟨order⟩

/-- One part of what a hash of a value depends on. -/
inductive HashPart where
  /-- The kind of what follows. -/
  | tag (number : Nat)
  /-- A number, or a length. -/
  | number (number : Int)
  /-- A text. -/
  | text (text : String)
  deriving DecidableEq, Hashable

/-- What a path adds to a hash. -/
def pathHashParts (path : Path) : List HashPart :=
  path.steps.flatMap fun
    | .root => [.tag 0]
    | .current => [.tag 1]
    | .parent => [.tag 2]
    | .entry name => [.tag 3, .text name]

/-- What a double adds to a hash: an integral double the same as the integer, another one
its word, and every not-a-number the word of the positive one. -/
def floatHashParts (number : Binary64) : List HashPart :=
  if number.isIntegral && number.fitsInt64 then [.tag 2, .number number.truncate]
  else if number.isNaN then [.tag 3, .number (Binary64.nan false).bits]
  else [.tag 3, .number number.bits]

mutual

/-- What the hash of a value depends on. -/
def hashParts : Value → List HashPart
  | null => [.tag 0]
  | bool truth => [.tag 1, .number (if truth then 1 else 0)]
  | int number => [.tag 2, .number number.toInt]
  | float number => floatHashParts number
  | str text => [.tag 4, .text text]
  | list items => .tag 5 :: .number items.length :: hashPartsOfItems items
  | map entries => .tag 6 :: .number entries.length :: hashPartsOfEntries entries
  | artifact handle => .tag 7 :: pathHashParts handle.path

/-- What the items of a list add to a hash. -/
def hashPartsOfItems : List Value → List HashPart
  | [] => []
  | item :: items => item.hashParts ++ hashPartsOfItems items

/-- What the entries of a map add to a hash. -/
def hashPartsOfEntries : List (String × Value) → List HashPart
  | [] => []
  | (key, value) :: entries => .text key :: value.hashParts ++ hashPartsOfEntries entries

end

instance : Hashable Value := ⟨fun value => hash value.hashParts⟩

mutual

/-- The text of a value in messages and tables. -/
def render : Value → String
  | null => "null"
  | bool truth => if truth then "true" else "false"
  | int number => number.toInt.repr
  | float number => number.render .display
  | str text => text
  | list items => "[" ++ renderItems items ++ "]"
  | map entries => "\x7b" ++ renderEntries entries ++ "\x7d"
  | artifact handle => "Artifact(" ++ handle.name ++ ")"

/-- The texts of items, separated by commas. -/
def renderItems : List Value → String
  | [] => ""
  | [item] => item.render
  | item :: items => item.render ++ ", " ++ renderItems items

/-- The texts of entries, separated by commas. -/
def renderEntries : List (String × Value) → String
  | [] => ""
  | [(key, value)] => key ++ ": " ++ value.render
  | (key, value) :: entries => key ++ ": " ++ value.render ++ ", " ++ renderEntries entries

end

instance : ToString Value := ⟨render⟩

end Value

end Logbook
