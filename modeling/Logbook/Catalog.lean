import Logbook.Store.Snapshot

/-!
# Catalogs

A `Catalog` has the documents of all runs in a directory and keeps them in a
snapshot, from which it can be opened again without looking at the runs.
-/

namespace Logbook

/-- The runs of a directory. -/
structure Catalog where
  /-- The directory of the run directories. -/
  source : Path
  /-- The file of the snapshot. -/
  snapshot : Path
  /-- The documents. -/
  store : Store
  /-- The run directories without metadata, as of the last time they were scanned. -/
  skipped : List Path

namespace Catalog

/-- The directory of a run. -/
def runDirectory (catalog : Catalog) (id : RunId) : Path := catalog.source.join (Run.name id)

/-- Adds the run in a directory, or notes that the directory has been skipped. -/
def add (catalog : Catalog) (id : RunId) (directory : Path) : Option Document → Catalog
  | some document => { catalog with store := catalog.store.insert id document }
  | none => { catalog with skipped := catalog.skipped ++ [directory] }

/-- Scans directories one after another, up to the first that fails. -/
def scan (disk : Disk) (catalog : Catalog) : List (RunId × Path) → Except Error Unit × Catalog
  | [] => (.ok (), catalog)
  | (id, directory) :: directories =>
      match Run.scan disk directory with
      | .ok document => (catalog.add id directory document).scan disk directories
      | .error error => (.error error, catalog)

/-- Scans all runs anew and writes the snapshot.  The catalog is cleared first, so
after a failure it has the runs that were scanned before. -/
def refresh (catalog : Catalog) (now : Timestamp) (disk : Disk) :
    Except Error Unit × Catalog × Disk :=
  let cleared := { catalog with store := catalog.store.clear now, skipped := [] }
  match Run.directories disk catalog.source with
  | .error error => (.error error, cleared, disk)
  | .ok directories =>
      match cleared.scan disk directories with
      | (.error error, catalog) => (.error error, catalog, disk)
      | (.ok (), catalog) =>
          match catalog.store.save catalog.snapshot disk with
          | .ok disk => (.ok (), catalog, disk)
          | .error error => (.error error, catalog, disk)

/-- The catalog of a directory, with a new snapshot. -/
def build (source snapshot : Path) (now : Timestamp) (disk : Disk) : Except Error Catalog × Disk :=
  match (⟨source, snapshot, Store.empty source now, []⟩ : Catalog).refresh now disk with
  | (.ok (), catalog, disk) => (.ok catalog, disk)
  | (.error error, _, disk) => (.error error, disk)

/-- The catalog of a directory, from the snapshot if there is one. -/
def openOrBuild (source snapshot : Path) (now : Timestamp) (disk : Disk) :
    Except Error Catalog × Disk :=
  if disk.exists? snapshot then
    ((Store.load snapshot disk).map fun store => ⟨source, snapshot, store, []⟩, disk)
  else build source snapshot now disk

/-- The runs that satisfy a predicate, in the order of their numbers. -/
def search (catalog : Catalog) (predicate : Predicate) : List (RunId × Document) :=
  catalog.store.search predicate

/-- All runs, in the order of their numbers. -/
def all (catalog : Catalog) : List (RunId × Document) := catalog.store.runs.entries

end Catalog

end Logbook
