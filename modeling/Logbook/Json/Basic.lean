import Logbook.Binary64.Text

/-!
# JSON documents

A document keeps its object members in the order in which they stand, repeated
keys included; what a repeated key means is for the reader of an object to say.
A number is an integer of at most 64 bits or a double.
-/

namespace Logbook

/-- A JSON document. -/
inductive Json where
  /-- The literal `null`. -/
  | null
  /-- A truth value. -/
  | bool (truth : Bool)
  /-- An integer. -/
  | integer (number : Int)
  /-- Any other number. -/
  | float (number : Binary64)
  /-- A string. -/
  | string (text : String)
  /-- An array. -/
  | array (items : List Json)
  /-- An object. -/
  | object (members : List (String × Json))

namespace Json

instance : Inhabited Json := ⟨.null⟩

/-- A hexadecimal digit. -/
def hexDigit (value : Nat) : Char :=
  if value < 10 then Char.ofNat ('0'.toNat + value) else Char.ofNat ('a'.toNat + value - 10)

/-- The written form of one character of a string. -/
def escape (c : Char) : List Char :=
  match c with
  | '"' => ['\\', '"']
  | '\\' => ['\\', '\\']
  | '\x08' => ['\\', 'b']
  | '\x0c' => ['\\', 'f']
  | '\n' => ['\\', 'n']
  | '\r' => ['\\', 'r']
  | '\t' => ['\\', 't']
  | c =>
      if c.toNat < 0x20 then
        ['\\', 'u', '0', '0', hexDigit (c.toNat / 16), hexDigit (c.toNat % 16)]
      else [c]

/-- A string between quotes. -/
def quote (text : String) : List Char :=
  '"' :: text.toList.flatMap escape ++ ['"']

mutual

/-- The document without spaces. -/
def compactChars : Json → List Char
  | null => "null".toList
  | bool truth => (if truth then "true" else "false").toList
  | integer number => number.repr.toList
  | float number => (number.render .json).toList
  | string text => quote text
  | array items => '[' :: compactItems items ++ [']']
  | object members => '\x7b' :: compactMembers members ++ ['\x7d']

/-- Items, separated by commas. -/
def compactItems : List Json → List Char
  | [] => []
  | [item] => item.compactChars
  | item :: items => item.compactChars ++ ',' :: compactItems items

/-- Members, separated by commas. -/
def compactMembers : List (String × Json) → List Char
  | [] => []
  | [(key, value)] => quote key ++ ':' :: value.compactChars
  | (key, value) :: members =>
      quote key ++ ':' :: value.compactChars ++ ',' :: compactMembers members

end

/-- The document without spaces. -/
def compact (document : Json) : String := String.ofList document.compactChars

/-- A new line, indented by two spaces for each level. -/
def newLine (level : Nat) : List Char := '\n' :: List.replicate (2 * level) ' '

mutual

/-- The document over several lines; an empty array or object stays on one. -/
def prettyChars (level : Nat) : Json → List Char
  | array [] => ['[', ']']
  | array (item :: items) =>
      '[' :: newLine (level + 1) ++ item.prettyChars (level + 1) ++ prettyItems (level + 1) items ++
        newLine level ++ [']']
  | object [] => ['\x7b', '\x7d']
  | object ((key, value) :: members) =>
      '\x7b' :: newLine (level + 1) ++ quote key ++ ':' :: ' ' :: value.prettyChars (level + 1) ++
        prettyMembers (level + 1) members ++ newLine level ++ ['\x7d']
  | null => "null".toList
  | bool truth => (if truth then "true" else "false").toList
  | integer number => number.repr.toList
  | float number => (number.render .json).toList
  | string text => quote text

/-- The items after the first, each on a line of its own. -/
def prettyItems (level : Nat) : List Json → List Char
  | [] => []
  | item :: items => ',' :: newLine level ++ item.prettyChars level ++ prettyItems level items

/-- The members after the first, each on a line of its own. -/
def prettyMembers (level : Nat) : List (String × Json) → List Char
  | [] => []
  | (key, value) :: members =>
      ',' :: newLine level ++ quote key ++ ':' :: ' ' :: value.prettyChars level ++
        prettyMembers level members

end

/-- The document over several lines, without a new line at its end. -/
def pretty (document : Json) : String := String.ofList (document.prettyChars 0)

/-- The value of the last member with the given key. -/
def lastMember? (key : String) (members : List (String × Json)) : Option Json :=
  (members.reverse.find? fun member => member.1 == key).map Prod.snd

end Json

end Logbook
