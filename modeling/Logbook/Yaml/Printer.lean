import Logbook.Yaml.Pen

/-!
# Writing YAML

The block style of a tree: an item of a sequence behind a dash, a value behind its
key, collections indented by two columns, a sequence behind a colon not at all.  A key
that is long, takes several lines or is a collection goes behind a question mark.

One shape has no form: a mapping of one entry whose key is tagged or a mapping of one
entry again.  Only under a tag of its own can such a mapping be written.
-/

namespace Logbook

namespace Yaml

namespace Tree

/-! ## Trees that can be written -/

/-- Whether a tree is tagged or a mapping of one entry. -/
def isWrapper : Tree → Bool
  | tagged _ _ => true
  | mapping entries => entries.length == 1
  | _ => false

mutual

/-- Whether a tree, which may be the content of a tag, can be written. -/
def hasForm (underTag : Bool) : Tree → Bool
  | sequence items => itemsHaveForm items
  | mapping entries =>
      (underTag || entries.length != 1 || !(entries.any fun entry => entry.1.isWrapper))
        && entriesHaveForm entries
  | tagged _ content => content.hasForm true
  | _ => true

/-- Whether all items can be written. -/
def itemsHaveForm : List Tree → Bool
  | [] => true
  | item :: items => item.hasForm false && itemsHaveForm items

/-- Whether all entries can be written. -/
def entriesHaveForm : List (Tree × Tree) → Bool
  | [] => true
  | (key, value) :: entries => key.hasForm false && value.hasForm false && entriesHaveForm entries

end

/-! ## Keys in front of a colon -/

/-- How many bytes a key may take in front of its colon. -/
def maxSimpleKey : Nat := 128

/-- The text of null, a truth value or a number. -/
def word? : Tree → Option String
  | null => some "null"
  | bool truth => some (if truth then "true" else "false")
  | integer number => some number.repr
  | float number => some (number.render .yaml)
  | _ => none

/-- The number of bytes of a tree that fits in front of a colon: a tag and the text
without its quotes, or an empty collection. -/
def keySize? : Tree → Option Nat
  | text chars => if chars.toList.any endsLine then none else some chars.utf8ByteSize
  | sequence items => if items.isEmpty then some 0 else none
  | mapping entries => if entries.isEmpty then some 0 else none
  | tagged tag content => content.keySize?.map ((Pen.fullTag tag).utf8ByteSize + ·)
  | tree => tree.word?.map String.utf8ByteSize

/-- Whether a key goes in front of its colon without a question mark. -/
def isSimpleKey (key : Tree) : Bool := key.keySize?.any fun size => size ≤ maxSimpleKey

/-! ## Writing -/

/-- The column of what belongs to a block at a column, or to no block. -/
def inside (first : Nat) (column : Option Nat) : Nat := (column.map (· + 2)).getD first

mutual

/-- Writes a tree inside the block at a column.  `inMapping` tells that it is a key or a
value, `isKey` that it is a key in front of a colon. -/
def write (column : Option Nat) (inMapping isKey : Bool) : Tree → Pen → Pen
  | text chars, pen =>
      match textStyle isKey chars with
      | .plain => pen.word chars.toList
      | .single => pen.single (inside 2 column) chars.toList
      | .double => pen.double chars.toList
      | .literal => pen.literal (inside 2 column) chars.toList
  | sequence items, pen =>
      if items.isEmpty then (pen.word ['[']).attach [']']
      else if inMapping && !pen.fresh then writeItems (column.getD 0) items pen
      else writeItems (inside 0 column) items pen
  | mapping entries, pen =>
      if entries.isEmpty then (pen.word ['\x7b']).attach ['\x7d']
      else writeEntries (inside 0 column) entries pen
  | tagged tag content, pen => content.write column inMapping isKey (pen.tag tag)
  | tree, pen => pen.word ((tree.word?.map String.toList).getD [])

/-- Writes the items of a sequence at a column. -/
def writeItems (column : Nat) : List Tree → Pen → Pen
  | [], pen => pen
  | item :: items, pen =>
      writeItems column items
        (item.write (some column) false false ((pen.goTo column).blockIndicator '-'))

/-- Writes the entries of a mapping at a column. -/
def writeEntries (column : Nat) : List (Tree × Tree) → Pen → Pen
  | [], pen => pen
  | (key, value) :: entries, pen =>
      let pen := pen.goTo column
      let pen :=
        if key.isSimpleKey then (key.write (some column) true true pen).attach [':']
        else
          let pen := key.write (some column) true false (pen.blockIndicator '?')
          (pen.goTo column).blockIndicator ':'
      writeEntries column entries (value.write (some column) true false pen)

end

/-- The text of a tree; `none` if it has no form. -/
def render? (tree : Tree) : Option (List Char) :=
  if tree.hasForm false then some (tree.write none false false {}).text else none

end Tree

end Yaml

end Logbook
