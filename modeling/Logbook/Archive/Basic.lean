import Logbook.Archive.Settings
import Logbook.Catalog
import Logbook.Frame.Table

/-!
# Archives

An `Archive` answers queries about the runs of a directory with rows whose metric
series and artifacts are loaded when they are read, or with a table.
-/

namespace Logbook

/-- The runs of a directory, open for queries. -/
structure Archive where
  /-- The directory of the run directories. -/
  source : Path
  /-- The directory of the snapshot. -/
  destination : Path
  /-- How queries are understood. -/
  parser : String → Except QueryError Predicate
  /-- How artifacts are loaded. -/
  codecs : Codecs
  /-- The runs. -/
  catalog : Catalog

/-- The answer to a query. -/
inductive Result where
  /-- Rows, with fields that are still to be loaded. -/
  | records (frame : Frame)
  /-- A table with all fields. -/
  | table (table : Table)

namespace Archive

/-- The name of the file that is written to find out whether a directory can be
written to. -/
def probe : String := ".runlog-write-check"

/-- Makes a directory that can be written to. -/
def prepare (destination : Path) (disk : Disk) : Except Error Unit × Disk :=
  match disk.makeFolders destination with
  | (.error _, disk) =>
      (.error (if disk.isFile destination then .denied destination else .files), disk)
  | (.ok (), disk) =>
      let probe := destination.join probe
      match disk.write probe (.text "") with
      | .error _ => (.error .files, disk)
      | .ok written =>
          match written.remove probe with
          | .ok disk => (.ok (), disk)
          | .error _ => (.ok (), written)

/-- Opens an archive. -/
def ofSettings (settings : Settings) (parser : String → Except QueryError Predicate)
    (codecs : Codecs) (now : Timestamp) (disk : Disk) : Except Error Archive × Disk :=
  let source := (disk.canonical? settings.source).getD settings.source
  let destination := settings.destination.getD source
  match prepare destination disk with
  | (.error error, disk) => (.error error, disk)
  | (.ok (), disk) =>
      let snapshot := destination.join (settings.name ++ ".json")
      let (catalog, disk) :=
        if settings.refresh then Catalog.build source snapshot now disk
        else Catalog.openOrBuild source snapshot now disk
      (catalog.map fun catalog => ⟨source, destination, parser, codecs, catalog⟩, disk)

/-- The runs that a query asks for, in the order of their numbers.  A blank query asks
for all. -/
def find (archive : Archive) (query : String) : Except Error (List (RunId × Document)) :=
  if (Text.trim query.toList).isEmpty then .ok archive.catalog.all
  else match archive.parser query with
    | .ok predicate => .ok (archive.catalog.search predicate)
    | .error cause => .error (.query cause)

/-- The row of a run. -/
def row (archive : Archive) (id : RunId) (document : Document) : Reading Row :=
  Reading.ofShelf (Row.ofDocument id document (archive.catalog.runDirectory id) archive.codecs)

/-- The rows of the runs that a query asks for. -/
def query (archive : Archive) (query : String) : Reading Frame := do
  let runs ← archive.find query
  return ⟨← runs.mapM fun run => archive.row run.1 run.2⟩

/-- The answer to a query in a format. -/
def queryAs (archive : Archive) (query : String) (format : ResultFormat) : Reading Result := do
  let frame ← archive.query query
  match format with
  | .records => return .records frame
  | .table => return .table (← frame.table)

/-- Scans all runs anew. -/
def refresh (archive : Archive) (now : Timestamp) (disk : Disk) :
    Except Error Unit × Archive × Disk :=
  let (outcome, catalog, disk) := archive.catalog.refresh now disk
  (outcome, { archive with catalog := catalog }, disk)

end Archive

end Logbook
