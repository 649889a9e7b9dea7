import Logbook.Artifact.Codec
import Logbook.Run
import Logbook.Value.Yaml

/-!
# Lists of artifacts

A run lists its artifacts by type, by directory and by name.  Directories are named
by dotted paths, with the empty path for the folder of the type itself; a dot at the
start means nothing.
-/

namespace Logbook

/-- The names of artifacts by type and directory. -/
abbrev Listing := SortedMap String (SortedMap String (List String))

namespace Listing

/-- The names in a directory: the keys of a map, or the items of a list. -/
def names : Value → List String
  | .map entries => entries.map Prod.fst
  | .list items => items.map Value.render
  | _ => []

/-- A directory without the dots at its start. -/
def directory (key : String) : String := String.ofList (key.toList.dropWhile (· == '.'))

/-- The directories of one type. -/
def directories : Value → SortedMap String (List String)
  | .map entries => SortedMap.ofList (entries.map fun entry => (directory entry.1, names entry.2))
  | _ => SortedMap.empty

/-- The list that a value stands for; one that is no map lists nothing. -/
def ofValue : Value → Listing
  | .map entries => SortedMap.ofList (entries.map fun entry => (entry.1, directories entry.2))
  | _ => SortedMap.empty

/-- Reads a list of artifacts. -/
def ofText (text : String) : Except Error Listing :=
  match Yaml.read text with
  | some tree => .ok (ofValue (.ofYaml tree))
  | none => .error .yaml

/-- The folder of a directory of one type. -/
def folder (run : Path) (kind directory : String) : Path :=
  ((Path.pieces '.' directory).filter (· != "")).foldl Path.join (Run.artifactsOf run kind)

/-- The artifacts in a directory, by name. -/
def group (run : Path) (kind : String) (codec : Codec) (directory : String) (names : List String) :
    Value :=
  .ofEntries (names.map fun name =>
    (name, .artifact ⟨name, kind, (folder run kind directory).join name, codec⟩))

/-- The artifacts of one type, by directory. -/
def groups (run : Path) (kind : String) (codec : Codec) (listing : Listing) :
    SortedMap String Value :=
  ((listing.get? kind).getD SortedMap.empty).mapValues (group run kind codec)

end Listing

end Logbook
