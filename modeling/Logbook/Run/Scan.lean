import Logbook.Artifact.Listing

/-!
# Documents of runs

The document of a run is made from its directory.  Metadata is flattened: each value
below nested maps gets the dotted path to it as its key.  Fields of listed metric
logs and listed artifacts get a marker, since they are loaded on demand.  A run
without its metadata has no document.
-/

namespace Logbook

namespace Run

mutual

/-- The values in a value that are not maps, each under the dotted path to it. -/
def leaves (key : String) : Value → List (String × Value)
  | .map entries => leavesOfEntries key entries
  | leaf => [(key, leaf)]

/-- The values in entries below a key. -/
def leavesOfEntries (key : String) : List (String × Value) → List (String × Value)
  | [] => []
  | (name, value) :: entries =>
      leaves (key ++ "." ++ name) value ++ leavesOfEntries key entries

end

/-- The value in a YAML file, none if there is no file.  Nothing counts as a map
without entries. -/
def readYaml? (disk : Disk) (path : Path) : Except Error (Option Value) :=
  match disk.readText path with
  | .error .notFound => .ok none
  | .error _ => .error .files
  | .ok text =>
      match (Yaml.read text).map Value.ofYaml with
      | none => .error .yaml
      | some .null => .ok (some (.map []))
      | some value => .ok (some value)

/-- The fields of some groups of metadata, none if a group is missing. -/
def metadataFields? (disk : Disk) (run : Path) :
    List String → Except Error (Option (List (String × Value)))
  | [] => .ok (some [])
  | group :: groups => do
      match ← readYaml? disk (metadata run group) with
      | none => return none
      | some value => return (← metadataFields? disk run groups).map (leaves group value ++ ·)

/-- The name of the metric log that a file lists the fields of. -/
def logOfFile? (name : String) : Option String :=
  let beginning := name.toList.take (name.length - ".yaml".length)
  if !beginning.isEmpty && name == String.ofList beginning ++ ".yaml" then
    some (String.ofList beginning)
  else none

/-- The metric logs that a run lists, by name of the file. -/
def listedLogs (disk : Disk) (run : Path) : List String :=
  match disk.list (metricKeys run) with
  | .ok entries =>
      let names := (entries.map Prod.fst).filter fun name => (logOfFile? name).isSome
      (names.mergeSort fun left right => left ≤ right).filterMap logOfFile?
  | .error _ => []

/-- The markers of the fields of one metric log. -/
def markersOfLog (disk : Disk) (run : Path) (log : String) :
    Except Error (List (String × Value)) := do
  match ← readYaml? disk ((metricKeys run).join (log ++ ".yaml")) with
  | some (.map entries) =>
      return entries.map fun entry => (Key.metric log entry.1, Marker.metric.value)
  | _ => return []

/-- The markers of the fields of all metric logs. -/
def metricMarkers (disk : Disk) (run : Path) : Except Error (List (String × Value)) := do
  return (← (listedLogs disk run).mapM (markersOfLog disk run)).flatten

/-- The markers of the artifacts in a list. -/
def markersOfListing (listing : Listing) : List (String × Value) :=
  listing.entries.flatMap fun (kind, directories) =>
    directories.keys.map fun directory => (Key.artifacts kind directory, Marker.artifact.value)

/-- The markers of the artifacts that a run lists. -/
def artifactMarkers (disk : Disk) (run : Path) : Except Error (List (String × Value)) := do
  let registry := artifactRegistry run
  if disk.isFile registry then
    match disk.readText registry with
    | .ok text => return markersOfListing (← Listing.ofText text)
    | .error _ => .error .files
  else return []

/-- The document of the run in a directory.  A marker takes the place of metadata with
the same key. -/
def scan (disk : Disk) (run : Path) : Except Error (Option Document) := do
  match ← metadataFields? disk run metadataGroups with
  | none => return none
  | some fields =>
      let metrics ← metricMarkers disk run
      let artifacts ← artifactMarkers disk run
      return some (SortedMap.ofList (fields ++ metrics ++ artifacts))

/-- The number that digits spell, if a run can have it. -/
def id? (digits : String) : Option RunId :=
  let number := Decimal.ofDigits digits.toList
  if digits == "" || !digits.toList.all Char.isDigit then none
  else if bound : number < UInt64.size then some (.ofNatLT number bound)
  else none

/-- The numbered directories in a directory, in the order of their numbers. -/
def directories (disk : Disk) (source : Path) : Except Error (List (RunId × Path)) :=
  match disk.list source with
  | .error _ => .error .files
  | .ok entries =>
      let runs := entries.filterMap fun (name, entry) =>
        match entry with
        | .folder _ => (id? name).map fun id => (id, source.join name)
        | .file _ => none
      .ok (runs.mergeSort fun left right => left.1 ≤ right.1)

end Run

end Logbook
