import Logbook.Yaml.Reader

/-!
# Records in YAML

Where it is known which keys a mapping has and of which type each value is, scalars are
read by that type: where a text has to be, every scalar is one, `123` and `null` as
well, and its tag means nothing.
-/

namespace Logbook

namespace Yaml

namespace Node

/-- The text of a scalar. -/
def text? : Node Nat → Option String
  | scalar _ text _ => some text
  | _ => none

/-- The text of a scalar, or nothing if it is null. -/
def optionalText? : Node Nat → Option (Option String)
  | scalar properties text style =>
      if style != .plain then some (some text)
      else if properties.tag == some (coreTag "null") then
        if isNull text then some none else none
      else if properties.tag.isNone && (text == "" || isNull text) then some none
      else some (some text)
  | _ => none

/-- The truth value of a scalar without quotes; a literal block has to say by its tag that
it is one. -/
def truth? : Node Nat → Option Bool
  | scalar properties text style =>
      let isTagged := properties.tag == some (coreTag "bool")
      if style == .plain || (style == .literal && isTagged) then bool? text else none
  | _ => none

end Node

/-- The node that a node stands for. -/
def Document.resolve? (document : Document) : Node Nat → Option (Node Nat)
  | .alias number => document.anchors.target? number
  | node => some node

/-- The entries of a document that is a mapping with texts as keys. -/
def Document.members? (document : Document) : Option (List (String × Node Nat)) :=
  match document.root with
  | .mapping _ entries =>
      entries.mapM fun (key, value) => do
        let key ← (← document.resolve? key).text?
        some (key, ← document.resolve? value)
  | _ => none

end Yaml

end Logbook
