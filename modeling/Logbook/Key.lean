import Logbook.Path
import Logbook.SortedMap.Basic
import Logbook.Value.Basic

/-!
# Keys of fields

The key of a field is a dotted path.  Its first segments say where the field comes
from: `config.` and `info.` hold metadata, which is part of the index and can be
searched; `artifact.<type>.<directory>` names a group of artifacts; any other key
`<log>.<field>` belongs to the metric log of its first segment.
-/

namespace Logbook

/-- The fields of a run, by key. -/
abbrev Document := SortedMap String Value

namespace Key

/-- The text after a given beginning. -/
def after? (beginning : String) (key : String) : Option String :=
  go beginning.toList key.toList
where
  go : List Char → List Char → Option String
    | [], rest => some (String.ofList rest)
    | _ :: _, [] => none
    | c :: beginning, d :: rest => if c == d then go beginning rest else none

/-- Whether a key starts with the given text. -/
def startsWith (beginning key : String) : Bool := (after? beginning key).isSome

/-- The beginnings of the keys that can be searched. -/
def searchableBeginnings : List String := ["info.", "config."]

/-- Whether a key names metadata, which queries can refer to. -/
def isSearchable (key : String) : Bool :=
  searchableBeginnings.any fun beginning => startsWith beginning key

/-- The text before the first dot, and the text after it. -/
def cut? : List Char → Option (String × String)
  | [] => none
  | '.' :: rest => some ("", String.ofList rest)
  | c :: rest => (cut? rest).map fun (first, rest) => (String.ofList (c :: first.toList), rest)

/-- The type in a key `artifact.<type>.<directory>`. -/
def artifactType? (key : String) : Option String :=
  (after? "artifact." key).bind fun rest => (cut? rest.toList).map Prod.fst

/-- The first segment of a key, which names its metric log. -/
def logName (key : String) : String :=
  String.ofList (key.toList.takeWhile (· != '.'))

/-- The key of a field of a metric log. -/
def metric (log field : String) : String := log ++ "." ++ field

/-- The key of the artifacts of one type in one directory. -/
def artifacts (kind directory : String) : String := "artifact." ++ kind ++ "." ++ directory

/-- The directory in a key of artifacts of the given type. -/
def artifactDirectory (kind key : String) : String :=
  (after? ("artifact." ++ kind ++ ".") key).getD ""

end Key

/-- What an index holds in place of a field that is loaded on demand. -/
inductive Marker where
  /-- The field is a series in a metric log. -/
  | metric
  /-- The field is a group of artifacts. -/
  | artifact
  /-- The field is computed when it is read. -/
  | computed
  deriving DecidableEq

namespace Marker

/-- The text that stands for a marker. -/
def text : Marker → String
  | metric => "METRIC"
  | artifact => "ARTIFACT"
  | computed => "VIRTUAL"

/-- The value that stands for a marker. -/
def value (marker : Marker) : Value := .str marker.text

end Marker

end Logbook
