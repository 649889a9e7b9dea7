import Logbook.Shelf

/-!
# Rows

A `Row` has the fields of one run, by key.  A field is a value, or is loaded or
computed when it is read.  The lazy view of a row shows a marker in place of a field
that is loaded, and of a computed one as long as it has not been read.
-/

namespace Logbook

/-- Where a field of a row comes from. -/
inductive Slot where
  /-- The field is a value. -/
  | value (value : Value)
  /-- The field is a series, from the metric loader of this number. -/
  | metric (loader : Nat)
  /-- The field is a group of artifacts, from the loader of this number. -/
  | artifacts (loader : Nat)
  /-- The field is computed, in the cell of this number. -/
  | computed (cell : Nat)

/-- The fields of one run. -/
structure Row where
  /-- The number of the run, if the row comes from one. -/
  id : Option RunId
  /-- The fields. -/
  slots : SortedMap String Slot
  /-- The metric loaders that belong to the row. -/
  metrics : List Nat := []
  /-- The artifact loaders that belong to the row. -/
  artifacts : List Nat := []

/-- What a document says about where a field comes from. -/
inductive Origin where
  /-- The value is in the document. -/
  | document
  /-- The field is in the metric log of this name. -/
  | log (name : String)
  /-- The field is a group of artifacts of this type. -/
  | artifacts (kind : String)
  deriving DecidableEq

namespace Origin

/-- Where a field comes from that has the given value in a document. -/
def of (key : String) (value : Value) : Origin :=
  match value.toText?, Key.artifactType? key with
  | some text, some kind => if text == Marker.artifact.text then artifacts kind else document
  | some text, none =>
      if text == Marker.metric.text && !Key.isSearchable key then log (Key.logName key)
      else document
  | none, _ => document

/-- The name of the metric log. -/
def log? : Origin → Option String
  | log name => some name
  | _ => none

/-- The type of the artifacts. -/
def kind? : Origin → Option String
  | artifacts kind => some kind
  | _ => none

end Origin

namespace Row

/-- A row of values; of values with one key the last counts. -/
def ofFields (id : Option RunId) (fields : List (String × Value)) : Row where
  id := id
  slots := SortedMap.ofList (fields.map fun field => (field.1, .value field.2))

/-- The row of a run with the given document.  The fields of one metric log share a
loader, and so do the groups of artifacts of one type. -/
def ofDocument (id : RunId) (document : Document) (run : Path) (codecs : Codecs) (shelf : Shelf) :
    Row × Shelf :=
  let origins := document.entries.map fun field => Origin.of field.1 field.2
  let logs := (origins.filterMap Origin.log?).eraseDups
  let kinds := (origins.filterMap Origin.kind?).eraseDups
  let firstMetric := shelf.metrics.size
  let firstArtifacts := shelf.artifacts.size
  let slot (key : String) (value : Value) : Slot :=
    match Origin.of key value with
    | .document => .value value
    | .log name => .metric (firstMetric + logs.idxOf name)
    | .artifacts kind => .artifacts (firstArtifacts + kinds.idxOf kind)
  ({ id := some id
     slots := document.mapValues slot
     metrics := List.range' firstMetric logs.length
     artifacts := List.range' firstArtifacts kinds.length },
   { shelf with
     metrics := shelf.metrics ++ (logs.map (MetricLoader.ofRun run)).toArray
     artifacts := shelf.artifacts ++
       (kinds.map fun kind => ({ run := run, kind := kind, codec := codecs.get? kind } :
         ArtifactLoader)).toArray })

/-- The keys of the fields. -/
def keys (row : Row) : List String := row.slots.keys

/-- Whether reading a field may load or compute it. -/
def isLazy (row : Row) (key : String) : Bool :=
  match row.slots.get? key with
  | some (.value _) | none => false
  | some _ => true

/-- Gives a field a slot. -/
def insert (row : Row) (key : String) (slot : Slot) : Row :=
  { row with slots := row.slots.insert key slot }

/-- Gives fields values. -/
def update (row : Row) (fields : List (String × Value)) : Row :=
  fields.foldl (fun row field => row.insert field.1 (.value field.2)) row

/-- What the lazy view shows of a field. -/
def viewSlot (shelf : Shelf) : Slot → Value
  | .value value => value
  | .metric _ => Marker.metric.value
  | .artifacts _ => Marker.artifact.value
  | .computed cell => (shelf.settled? cell).getD Marker.computed.value

/-- The lazy view of a row. -/
def view (shelf : Shelf) (row : Row) : Document :=
  row.slots.mapValues fun _ slot => viewSlot shelf slot

/-- Whether two rows are of the same run and have the same lazy view. -/
def same (shelf : Shelf) (left right : Row) : Bool :=
  left.id == right.id && Value.sameEntries (left.view shelf).entries (right.view shelf).entries

/-- Reads what a slot stands for. -/
def readSlot (key : String) : Slot → Reading Value
  | .value value => return value
  | .metric loader => Shelf.fetchMetric loader key
  | .artifacts loader => Shelf.fetchArtifacts loader key
  | .computed cell => Shelf.compute cell key

/-- Reads a field, if the row has it. -/
def get? (row : Row) (key : String) : Reading (Option Value) :=
  match row.slots.get? key with
  | some slot => return some (← readSlot key slot)
  | none => return none

/-- Reads a field; one that the row does not have is null. -/
def cell (row : Row) (key : String) : Reading Value := do
  return (← row.get? key).getD .null

/-- Releases the loaders of a row. -/
def release (row : Row) : Reading Unit := Reading.ofShelf fun shelf =>
  ((), shelf.release row.metrics row.artifacts)

/-- Reads all fields, in key order. -/
def materialize (row : Row) : Reading Document := do
  let fields ← row.slots.entries.mapM fun (key, slot) => return (key, ← readSlot key slot)
  return SortedMap.ofList fields

/-- Copies the computed fields among some fields of a row. -/
def copyFields (row : Row) (shelf : Shelf) : List (String × Slot) → Row × Shelf
  | [] => (row, shelf)
  | (key, .computed cell) :: fields =>
      let (cell, shelf) := shelf.copyCell cell
      copyFields (row.insert key (.computed cell)) shelf fields
  | _ :: fields => copyFields row shelf fields

/-- A copy of a row, with the same loaders and with cells of its own. -/
def copy (row : Row) : Reading Row := Reading.ofShelf fun shelf =>
  copyFields row shelf row.slots.entries

/-- Copies of rows. -/
def copies (rows : List Row) : Reading (List Row) := rows.mapM copy

end Row

end Logbook
