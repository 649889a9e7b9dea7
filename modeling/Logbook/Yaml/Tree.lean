import Logbook.Binary64.Text

/-!
# YAML documents as trees

A tree is a document after its plain scalars have been resolved and its aliases
replaced by what they stand for.  Keys of mappings may be any trees; two keys are
the same when they are of one kind and equal, so that the integer `1`, the float
`1.0` and the text `'1'` are three keys.
-/

namespace Logbook

namespace Yaml

/-- A YAML document. -/
inductive Tree where
  /-- Null. -/
  | null
  /-- A truth value. -/
  | bool (truth : Bool)
  /-- An integer of at most 64 bits. -/
  | integer (number : Int)
  /-- A floating-point number. -/
  | float (number : Binary64)
  /-- A text. -/
  | text (text : String)
  /-- A sequence. -/
  | sequence (items : List Tree)
  /-- A mapping, its entries in the order of the document. -/
  | mapping (entries : List (Tree × Tree))
  /-- A tree under a tag that names a type of the application. -/
  | tagged (tag : String) (content : Tree)

namespace Tree

instance : Inhabited Tree := ⟨.null⟩

mutual

/-- Whether two trees are equal as keys; entries of mappings in any order. -/
def same : Tree → Tree → Bool
  | null, null => true
  | bool left, bool right => left == right
  | integer left, integer right => left == right
  | float left, float right => left.sameNumber right
  | text left, text right => left == right
  | sequence left, sequence right => sameItems left right
  | mapping left, mapping right => left.length == right.length && includedIn left right
  | tagged leftTag left, tagged rightTag right => leftTag == rightTag && left.same right
  | _, _ => false

/-- Whether two sequences have the same items. -/
def sameItems : List Tree → List Tree → Bool
  | [], [] => true
  | left :: lefts, right :: rights => left.same right && sameItems lefts rights
  | _, _ => false

/-- Whether every entry on the left has an equal one among those on the right. -/
def includedIn : List (Tree × Tree) → List (Tree × Tree) → Bool
  | [], _ => true
  | (key, value) :: lefts, rights =>
      (rights.any fun other => key.same other.1 && value.same other.2) && includedIn lefts rights

end

end Tree

end Yaml

end Logbook
