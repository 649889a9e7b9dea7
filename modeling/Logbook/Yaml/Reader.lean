import Logbook.Yaml.Node
import Logbook.Yaml.Scalar

/-!
# Reading YAML

A document is read in three steps: its characters into tokens, the tokens into
nodes, the nodes into a tree.  The last step resolves plain scalars and tags and
puts the anchored nodes in the place of their aliases.

Aliases make a document refer to itself and can make a small text stand for a huge
tree.  Nesting beyond `maxDepth` is refused, and so is following aliases more than
`aliasesPerPart` times for each part of the document.
-/

namespace Logbook

namespace Yaml

/-- How deep sequences and mappings may be nested. -/
def maxDepth : Nat := 128

/-- How often aliases may be followed for each part of a document. -/
def aliasesPerPart : Nat := 100

/-! ## Anchors -/

/-- The anchors of a document.  Every name has a number, by which its aliases go; the
number of an anchor is how many names there are before it.  A name that is given
twice moves to a number that another name may get later; that name then takes the
aliases of both. -/
structure Anchors where
  /-- The number of each name. -/
  numbers : List (String × Nat) := []
  /-- How many nodes with anchors have begun. -/
  begun : Nat := 0
  /-- Which of these nodes was the last to get each number, the latest first. -/
  latest : List (Nat × Nat) := []
  /-- The nodes with anchors. -/
  nodes : List (Nat × Node Nat) := []

namespace Anchors

/-- A node with a name begins. -/
def start (anchors : Anchors) (name : String) : Anchors :=
  let number := anchors.numbers.length
  { anchors with
    numbers := (name, number) :: anchors.numbers.filter fun entry => entry.1 != name
    begun := anchors.begun + 1
    latest := (number, anchors.begun) :: anchors.latest }

/-- The node that an alias repeats. -/
def target? (anchors : Anchors) (number : Nat) : Option (Node Nat) :=
  (anchors.latest.lookup number).bind fun place => anchors.nodes.lookup place

end Anchors

/-- Reads a node under its anchor, if it has one. -/
def withAnchor? (properties : Properties) (anchors : Anchors)
    (read? : Anchors → Option (Node Nat × Anchors)) : Option (Node Nat × Anchors) :=
  match properties.anchor with
  | none => read? anchors
  | some name => do
      let (node, inner) ← read? (anchors.start name)
      some (node, { inner with nodes := (anchors.begun, node) :: inner.nodes })

mutual

/-- Puts numbers in the place of the names in aliases; the anchor of an alias has to
come before it. -/
def number? (anchors : Anchors) : Node String → Option (Node Nat × Anchors)
  | .alias name => (anchors.numbers.lookup name).map fun number => (.alias number, anchors)
  | .scalar properties text style =>
      withAnchor? properties anchors fun anchors => some (.scalar properties text style, anchors)
  | .sequence properties items =>
      withAnchor? properties anchors fun anchors =>
        (numberItems? anchors items).map fun (items, anchors) =>
          (.sequence properties items, anchors)
  | .mapping properties entries =>
      withAnchor? properties anchors fun anchors =>
        (numberEntries? anchors entries).map fun (entries, anchors) =>
          (.mapping properties entries, anchors)

/-- Numbers the aliases among items. -/
def numberItems? (anchors : Anchors) : List (Node String) → Option (List (Node Nat) × Anchors)
  | [] => some ([], anchors)
  | item :: items => do
      let (item, anchors) ← number? anchors item
      let (items, anchors) ← numberItems? anchors items
      some (item :: items, anchors)

/-- Numbers the aliases among entries. -/
def numberEntries? (anchors : Anchors) :
    List (Node String × Node String) → Option (List (Node Nat × Node Nat) × Anchors)
  | [] => some ([], anchors)
  | (key, value) :: entries => do
      let (key, anchors) ← number? anchors key
      let (value, anchors) ← number? anchors value
      let (entries, anchors) ← numberEntries? anchors entries
      some ((key, value) :: entries, anchors)

end

mutual

/-- The number of parts of a node: a collection counts its beginning and its end. -/
def parts : Node Nat → Nat
  | .alias _ => 1
  | .scalar .. => 1
  | .sequence _ items => 2 + partsOfItems items
  | .mapping _ entries => 2 + partsOfEntries entries

/-- The number of parts of items. -/
def partsOfItems : List (Node Nat) → Nat
  | [] => 0
  | item :: items => parts item + partsOfItems items

/-- The number of parts of entries. -/
def partsOfEntries : List (Node Nat × Node Nat) → Nat
  | [] => 0
  | (key, value) :: entries => parts key + parts value + partsOfEntries entries

end

/-! ## Trees -/

/-- The byte of an exclamation mark. -/
def bang : UInt8 := 0x21

/-- The name of a type of the application in a tag: what follows an exclamation mark, or
two of them.  A tag that is not a text names no type. -/
def applicationTag? (tag : Octets) : Option String :=
  let decode (name : Octets) : Option String := String.fromUTF8? ⟨name.toArray⟩
  match tag with
  | [first] => if first == bang then decode [first] else none
  | first :: second :: third :: name =>
      if first != bang then none
      else if second == bang then decode (third :: name)
      else decode (second :: third :: name)
  | first :: name => if first == bang then decode name else none
  | [] => none

/-- The tree of a scalar. -/
def scalar? (properties : Properties) (text : String) (style : ScalarStyle) : Option Tree :=
  let untagged := if style == .plain then plain? text else some (.text text)
  match properties.tag with
  | none => untagged
  | some tag =>
      match applicationTag? tag with
      | some name => untagged.map (.tagged name)
      | none => if tag.head? == some bang then untagged else tagged? tag text

/-- A collection under its tag. -/
def underTag (properties : Properties) (tree : Tree) : Tree :=
  match properties.tag.bind applicationTag? with
  | some name => .tagged name tree
  | none => tree

/-- Adds an entry to the entries of a mapping, in reverse; its key has to be new. -/
def addPair? (entries : List (Tree × Tree)) (key value : Tree) : Option (List (Tree × Tree)) :=
  if entries.any fun entry => entry.1.same key then none else some ((key, value) :: entries)

/-- How often aliases have been followed, and may be followed at most. -/
structure Followed where
  /-- How often aliases have been followed. -/
  count : Nat
  /-- How often they may be. -/
  limit : Nat

/-- The node that a node stands for, an alias being followed. -/
def follow? (anchors : Anchors) (followed : Followed) : Node Nat → Option (Node Nat × Followed)
  | .alias number =>
      if followed.limit ≤ followed.count then none
      else (anchors.target? number).map ((·, { followed with count := followed.count + 1 }))
  | node => some (node, followed)

/-- The tree of a node that may nest so deep. -/
def tree? (anchors : Anchors) : Nat → Followed → Node Nat → Option (Tree × Followed)
  | 0, followed, node => do
      let (node, followed) ← follow? anchors followed node
      match node with
      | .scalar properties text style => (scalar? properties text style).map ((·, followed))
      | _ => none
  | depth + 1, followed, node => do
      let (node, followed) ← follow? anchors followed node
      match node with
      | .alias _ => none
      | .scalar properties text style => (scalar? properties text style).map ((·, followed))
      | .sequence properties items =>
          let step := fun (trees, followed) item =>
            (tree? anchors depth followed item).map fun (tree, followed) =>
              (tree :: trees, followed)
          let (trees, followed) ← items.foldlM step ([], followed)
          some (underTag properties (.sequence trees.reverse), followed)
      | .mapping properties entries =>
          let step := fun (trees, followed) entry => do
            let (key, followed) ← tree? anchors depth followed entry.1
            let (value, followed) ← tree? anchors depth followed entry.2
            (addPair? trees key value).map ((·, followed))
          let (trees, followed) ← entries.foldlM step ([], followed)
          some (underTag properties (.mapping trees.reverse), followed)

/-- A document whose aliases can be followed. -/
structure Document where
  /-- The node that everything belongs to. -/
  root : Node Nat
  /-- The anchors. -/
  anchors : Anchors

/-- The document that a text spells. -/
def document? (text : String) : Option Document := do
  let node ← Node.ofTokens? (← tokens? text)
  let (root, anchors) ← number? {} node
  some ⟨root, anchors⟩

/-- The tree of a document. -/
def Document.tree? (document : Document) : Option Tree :=
  let followed : Followed := ⟨0, aliasesPerPart * parts document.root⟩
  (Yaml.tree? document.anchors maxDepth followed document.root).map Prod.fst

/-- Reads a YAML document. -/
def read (text : String) : Option Tree := (document? text).bind Document.tree?

end Yaml

end Logbook
