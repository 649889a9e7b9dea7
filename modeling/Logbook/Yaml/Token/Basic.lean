import Logbook.Yaml.Glyph

/-!
# Tokens of YAML

The tokens of a document show where its blocks begin and end.  That a key begins with
a token, and a block mapping with that key, may turn out only later, by the colon
behind the key; a `Slot` is a token with room for both facts.
-/

namespace Logbook

namespace Yaml

/-- A part of a tag.  Escapes in tags spell bytes, which need not be a text. -/
abbrev Octets := List UInt8

/-- The bytes of a text. -/
def octets (text : String) : Octets := text.toUTF8.toList

/-- How a scalar is written. -/
inductive ScalarStyle where
  /-- Without quotes. -/
  | plain
  /-- Between quotes of either kind. -/
  | quoted
  /-- As a block whose line ends are kept. -/
  | literal
  /-- As a block whose lines are joined. -/
  | folded
  deriving DecidableEq

/-- A token of a document. -/
inductive Token where
  /-- A directive with the version of the language. -/
  | version (major minor : Nat)
  /-- A directive that declares a handle of tags. -/
  | tagHandle (handle : String) (leader : Octets)
  /-- The marker in front of a document. -/
  | documentStart
  /-- The marker behind a document. -/
  | documentEnd
  /-- A block sequence begins. -/
  | sequenceStart
  /-- A block mapping begins. -/
  | mappingStart
  /-- A block sequence or mapping ends. -/
  | blockEnd
  /-- An opening bracket. -/
  | flowSequenceStart
  /-- A closing bracket. -/
  | flowSequenceEnd
  /-- An opening brace. -/
  | flowMappingStart
  /-- A closing brace. -/
  | flowMappingEnd
  /-- The dash of an item of a block sequence. -/
  | entry
  /-- The comma between entries of a flow collection. -/
  | flowEntry
  /-- A key follows. -/
  | key
  /-- The value of a key follows. -/
  | value
  /-- A reference to an anchor. -/
  | alias (name : String)
  /-- The name of the node that follows. -/
  | anchor (name : String)
  /-- The tag of the node that follows. -/
  | tag (handle : String) (suffix : Octets)
  /-- A scalar. -/
  | scalar (text : String) (style : ScalarStyle)
  deriving DecidableEq

/-- A token, and whether a key begins with it, and a block mapping with that key. -/
structure Slot where
  /-- Whether a block mapping begins in front of the token. -/
  opensMapping : Bool
  /-- Whether a key begins with the token. -/
  isKey : Bool
  /-- The token. -/
  token : Token

/-- The tokens of a slot. -/
def Slot.tokens (slot : Slot) : List Token :=
  (if slot.opensMapping then [.mappingStart] else []) ++ (if slot.isKey then [.key] else [])
    ++ [slot.token]

end Yaml

end Logbook
