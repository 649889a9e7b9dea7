import Logbook.Archive.Basic
import Logbook.Proofs.Store.Search

/-!
# What a failed refresh leaves

A refresh clears the catalog before it looks at the first run, and adds the runs one by
one as it finds them.  When it fails, at whatever point, the catalog has what had been
scanned by then.  So a failure goes unnoticed exactly if the catalog had just that
before (`Catalog.sameAs_refresh_iff`), and otherwise runs are lost.

## Strategy

`Run.scannedIn` says what the directories give up to the first that fails, without any
catalog.  Each step of a scan adds one item of it (`Catalog.HasExactly.add`), so the
catalog has exactly these items after any refresh, whether it succeeds or not.
-/

namespace Logbook

/-! ## What the directories have -/

/-- What a computation gives for items one after another, up to the first for which it
fails. -/
def untilError {α β : Type} (compute : α → Except Error β) : List α → List (α × β)
  | [] => []
  | item :: items =>
      match compute item with
      | .ok result => (item, result) :: untilError compute items
      | .error _ => []

namespace Run

/-- The runs that can be listed in a directory; none if it cannot be read. -/
def listed (disk : Disk) (source : Path) : List (RunId × Path) :=
  (directories disk source).toOption.getD []

/-- What scanning the runs of a directory gives, up to the first that fails. -/
def scannedIn (disk : Disk) (source : Path) : List ((RunId × Path) × Option Document) :=
  untilError (fun run => scan disk run.2) (listed disk source)

/-- The runs with their documents. -/
def documentsOf (scanned : List ((RunId × Path) × Option Document)) : List (RunId × Document) :=
  scanned.filterMap fun run => run.2.map (Prod.mk run.1.1)

/-- The directories without metadata. -/
def skippedOf (scanned : List ((RunId × Path) × Option Document)) : List Path :=
  scanned.filterMap fun run => if run.2.isNone then some run.1.2 else none

/-- The kind of each field of some documents, a later one before an earlier one. -/
def kindsOf (documents : List (RunId × Document)) : SortedMap String FieldKind :=
  SortedMap.ofList (documents.flatMap fun run =>
    run.2.entries.map fun field => (field.1, FieldKind.of field.1 field.2))

end Run

namespace Catalog

/-- The catalog has what has been scanned, and nothing else. -/
structure HasExactly (catalog : Catalog) (scanned : List ((RunId × Path) × Option Document)) :
    Prop where
  runs : catalog.store.runs = SortedMap.ofList (Run.documentsOf scanned)
  fields : catalog.store.fields = Run.kindsOf (Run.documentsOf scanned)
  skipped : catalog.skipped = Run.skippedOf scanned

/-- Two catalogs have the same runs, fields and skipped directories, and answer queries in
the same way. -/
structure SameAs (before after : Catalog) : Prop where
  runs : after.store.runs = before.store.runs
  fields : after.store.fields = before.store.fields
  skipped : after.skipped = before.skipped
  search (predicate : Predicate) : after.search predicate = before.search predicate

/-! ## Scanning -/

variable {catalog : Catalog} {scanned : List ((RunId × Path) × Option Document)}

theorem HasExactly.add (h : catalog.HasExactly scanned) (run : RunId × Path)
    (document : Option Document) :
    (catalog.add run.1 run.2 document).HasExactly (scanned ++ [(run, document)]) := by
  cases document with
  | none =>
    have hdocuments : Run.documentsOf (scanned ++ [(run, none)]) = Run.documentsOf scanned := by
      simp [Run.documentsOf]
    refine ⟨?_, ?_, ?_⟩
    · rw [hdocuments]
      exact h.runs
    · rw [hdocuments]
      exact h.fields
    · show catalog.skipped ++ [run.2] = _
      rw [h.skipped]
      simp [Run.skippedOf]
  | some document =>
    have hdocuments : Run.documentsOf (scanned ++ [(run, some document)]) =
        Run.documentsOf scanned ++ [(run.1, document)] := by
      simp [Run.documentsOf]
    refine ⟨?_, ?_, ?_⟩
    · show catalog.store.runs.insert run.1 document = _
      rw [h.runs, hdocuments, SortedMap.ofList, SortedMap.ofList, List.foldl_append]
      rfl
    · show document.entries.foldl _ catalog.store.fields = _
      rw [h.fields, hdocuments, Run.kindsOf, Run.kindsOf, List.flatMap_append, SortedMap.ofList,
        SortedMap.ofList, List.foldl_append, List.flatMap_singleton, List.foldl_map]
    · show catalog.skipped = _
      rw [h.skipped]
      simp [Run.skippedOf]

theorem indexed_add (h : catalog.store.Indexed) (run : RunId × Path) (document : Option Document) :
    (catalog.add run.1 run.2 document).store.Indexed := by
  cases document with
  | none => exact h
  | some document => exact Store.indexed_insert h run.1 document

theorem scan_cons (disk : Disk) (catalog : Catalog) (run : RunId × Path)
    (directories : List (RunId × Path)) :
    catalog.scan disk (run :: directories) =
      match Run.scan disk run.2 with
      | .ok document => (catalog.add run.1 run.2 document).scan disk directories
      | .error error => (.error error, catalog) := by
  rfl

theorem header_scan (disk : Disk) (catalog : Catalog) (directories : List (RunId × Path)) :
    (catalog.scan disk directories).2.store.header = catalog.store.header := by
  induction directories generalizing catalog with
  | nil => rfl
  | cons run directories ih =>
    rw [scan_cons]
    cases Run.scan disk run.2 with
    | error error => rfl
    | ok document? => cases document? <;> exact ih _

/-- A scan adds what the directories give up to the first that fails. -/
theorem scan_spec (disk : Disk) (directories : List (RunId × Path))
    (h : catalog.HasExactly scanned) (hindexed : catalog.store.Indexed) :
    (catalog.scan disk directories).2.HasExactly
        (scanned ++ untilError (fun run => Run.scan disk run.2) directories) ∧
      (catalog.scan disk directories).2.store.Indexed := by
  induction directories generalizing catalog scanned with
  | nil =>
    rw [untilError, List.append_nil]
    exact ⟨h, hindexed⟩
  | cons run directories ih =>
    rw [scan_cons, untilError]
    cases Run.scan disk run.2 with
    | error error =>
      rw [List.append_nil]
      exact ⟨h, hindexed⟩
    | ok document =>
      have hrest := ih (h.add run document) (indexed_add hindexed run document)
      rw [List.append_assoc] at hrest
      exact hrest

/-- A scan stays in its directory, and the snapshot stays where it is. -/
theorem paths_scan (disk : Disk) (catalog : Catalog) (directories : List (RunId × Path)) :
    (catalog.scan disk directories).2.source = catalog.source ∧
      (catalog.scan disk directories).2.snapshot = catalog.snapshot := by
  induction directories generalizing catalog with
  | nil => exact ⟨rfl, rfl⟩
  | cons run directories ih =>
    rw [scan_cons]
    cases Run.scan disk run.2 with
    | error error => exact ⟨rfl, rfl⟩
    | ok document =>
      have hadd : (catalog.add run.1 run.2 document).source = catalog.source ∧
          (catalog.add run.1 run.2 document).snapshot = catalog.snapshot := by
        cases document <;> exact ⟨rfl, rfl⟩
      obtain ⟨hsource, hsnapshot⟩ := ih (catalog.add run.1 run.2 document)
      exact ⟨hsource.trans hadd.1, hsnapshot.trans hadd.2⟩

/-- The catalog without runs, from which a refresh starts. -/
def cleared (catalog : Catalog) (now : Timestamp) : Catalog :=
  { catalog with store := catalog.store.clear now, skipped := [] }

/-- Where the runs can be listed, they are scanned, and the snapshot is written at the end. -/
theorem refresh_of_listed {catalog : Catalog} {disk : Disk} {directories : List (RunId × Path)}
    (now : Timestamp) (h : Run.directories disk catalog.source = .ok directories) :
    catalog.refresh now disk =
      match (catalog.cleared now).scan disk directories with
      | (.error error, scanned) => (.error error, scanned, disk)
      | (.ok (), scanned) =>
          match scanned.store.save scanned.snapshot disk with
          | .ok written => (.ok (), scanned, written)
          | .error error => (.error error, scanned, disk) := by
  rewrite [refresh, h]
  rfl

/-- Without a list of the runs, a refresh leaves nothing. -/
theorem refresh_of_unlisted {catalog : Catalog} {disk : Disk} {error : Error} (now : Timestamp)
    (h : Run.directories disk catalog.source = .error error) :
    catalog.refresh now disk = (.error error, catalog.cleared now, disk) := by
  rw [refresh, h]
  rfl

/-- Wherever a refresh ends, the catalog is the one that the scan has come to. -/
theorem catalog_refresh (catalog : Catalog) (now : Timestamp) (disk : Disk) :
    (catalog.refresh now disk).2.1 =
      ((catalog.cleared now).scan disk (Run.listed disk catalog.source)).2 := by
  unfold Run.listed
  cases hdirectories : Run.directories disk catalog.source with
  | error error =>
    rw [refresh_of_unlisted now hdirectories]
    rfl
  | ok directories =>
    rw [refresh_of_listed now hdirectories]
    show _ = ((catalog.cleared now).scan disk directories).2
    rcases (catalog.cleared now).scan disk directories with ⟨error | ⟨⟩, scanned⟩
    · rfl
    · -- Whether the snapshot is written makes no difference to the catalog.
      dsimp only
      cases scanned.store.save scanned.snapshot disk <;> rfl

theorem source_refresh (catalog : Catalog) (now : Timestamp) (disk : Disk) :
    (catalog.refresh now disk).2.1.source = catalog.source := by
  rw [catalog_refresh, (paths_scan disk _ _).1]
  rfl

/-- **After a refresh, also one that fails, the catalog has exactly what was scanned.** -/
theorem refresh_spec (catalog : Catalog) (now : Timestamp) (disk : Disk) :
    (catalog.refresh now disk).2.1.HasExactly (Run.scannedIn disk catalog.source) ∧
      (catalog.refresh now disk).2.1.store.Indexed := by
  have hcleared : (catalog.cleared now).HasExactly [] := ⟨rfl, rfl, rfl⟩
  have hempty : (catalog.cleared now).store.Indexed := Store.indexed_empty _ now
  rw [catalog_refresh]
  exact scan_spec disk (Run.listed disk catalog.source) hcleared hempty

/-! ## What a failure changes -/

/-- The catalogs that there can be: those that are built or opened, and what refreshing
makes of them, also where it fails. -/
inductive Reachable : Catalog → Prop
  | build {source snapshot : Path} {now : Timestamp} {disk last : Disk} {catalog : Catalog}
      (h : Catalog.build source snapshot now disk = (.ok catalog, last)) : Reachable catalog
  | openOrBuild {source snapshot : Path} {now : Timestamp} {disk last : Disk} {catalog : Catalog}
      (h : Catalog.openOrBuild source snapshot now disk = (.ok catalog, last)) : Reachable catalog
  | refresh {catalog : Catalog} (h : Reachable catalog) (now : Timestamp) (disk : Disk) :
      Reachable (catalog.refresh now disk).2.1

/-- A catalog that is built has exactly what its directories have. -/
theorem build_spec {source snapshot : Path} {now : Timestamp} {disk last : Disk}
    (h : Catalog.build source snapshot now disk = (.ok catalog, last)) :
    catalog.source = source ∧ catalog.HasExactly (Run.scannedIn disk source) ∧
      catalog.store.Indexed := by
  have hspec := refresh_spec ⟨source, snapshot, Store.empty source now, []⟩ now disk
  have hsource := source_refresh ⟨source, snapshot, Store.empty source now, []⟩ now disk
  unfold Catalog.build at h
  generalize Catalog.refresh ⟨source, snapshot, Store.empty source now, []⟩ now disk = result
    at h hspec hsource
  obtain ⟨error | ⟨⟩, built, rest⟩ := result
  · cases h
  · cases h
    exact ⟨hsource, hspec⟩

theorem indexed_of_openOrBuild {source snapshot : Path} {now : Timestamp} {disk last : Disk}
    (h : Catalog.openOrBuild source snapshot now disk = (.ok catalog, last)) :
    catalog.store.Indexed := by
  unfold Catalog.openOrBuild at h
  split at h
  · cases hload : Store.load snapshot disk with
    | error error =>
      rw [hload] at h
      cases h
    | ok store =>
      rw [hload] at h
      cases h
      exact Store.indexed_of_load hload
  · exact (build_spec h).2.2

theorem indexed_of_reachable (h : Reachable catalog) : catalog.store.Indexed := by
  cases h with
  | build h => exact (build_spec h).2.2
  | openOrBuild h => exact indexed_of_openOrBuild h
  | refresh _ now disk => exact (refresh_spec _ now disk).2

/-- A catalog that is refreshed stays the same exactly if it has what the directories
give up to the first that fails. -/
theorem sameAs_refresh_iff (h : Reachable catalog) (now : Timestamp) (disk : Disk) :
    catalog.SameAs (catalog.refresh now disk).2.1 ↔
      catalog.HasExactly (Run.scannedIn disk catalog.source) := by
  obtain ⟨hafter, hindexed⟩ := refresh_spec catalog now disk
  constructor
  · intro hsame
    exact ⟨hsame.runs ▸ hafter.runs, hsame.fields ▸ hafter.fields,
      hsame.skipped ▸ hafter.skipped⟩
  · intro hbefore
    have hruns := hafter.runs.trans hbefore.runs.symm
    refine ⟨hruns, hafter.fields.trans hbefore.fields.symm,
      hafter.skipped.trans hbefore.skipped.symm, fun predicate => ?_⟩
    -- Both indexes are exact, so the documents alone decide what is found.
    calc (catalog.refresh now disk).2.1.search predicate
        = (catalog.refresh now disk).2.1.store.runs.entries.filter _ :=
          Store.search_of_indexed hindexed predicate
      _ = catalog.store.runs.entries.filter _ := by rw [hruns]
      _ = catalog.search predicate :=
          (Store.search_of_indexed (indexed_of_reachable h) predicate).symm

/-- A disk without runs in `/work/runs`. -/
def noRuns : Disk := ⟨⟨"/work"⟩, .folder [("runs", .folder [])]⟩

/-- A disk with one run in `/work/runs`. -/
def oneRun : Disk :=
  ⟨⟨"/work"⟩, .folder [("runs", .folder [("1", .folder [("metadata", .folder
    [("config.yaml", .file (.text "seed: 1\n")),
      ("info.yaml", .file (.text "status: COMPLETE\n"))])])])]⟩

theorem directories_of_lost :
    Run.directories (Disk.empty ⟨"/work"⟩) ⟨"/work/runs"⟩ = .error .files := by
  rfl

/-- **Exactly when a failed refresh leaves the catalog as it was**: if it had just what
the directories give up to the first that fails.  The archive has what the catalog has. -/
theorem failed_refresh_sameAs_iff {catalog after : Catalog} (h : Reachable catalog)
    {now : Timestamp} {disk last : Disk} {error : Error}
    (hfail : catalog.refresh now disk = (.error error, after, last)) :
    (catalog.SameAs after ↔ catalog.HasExactly (Run.scannedIn disk catalog.source)) ∧
      ∀ archive : Archive, archive.catalog = catalog →
        archive.refresh now disk = (.error error, { archive with catalog := after }, last) := by
  constructor
  · have hiff := sameAs_refresh_iff h now disk
    rw [hfail] at hiff
    exact hiff
  · rintro archive rfl
    rw [Archive.refresh, hfail]

/-- A catalog that has no runs has none after its directory is lost. -/
theorem sameAs_of_lost_empty_directory :
    ∃ catalog after last, Reachable catalog ∧ catalog.source = ⟨"/work/runs"⟩ ∧
      catalog.refresh .epoch (Disk.empty ⟨"/work"⟩) = (.error .files, after, last) ∧
      catalog.SameAs after := by
  have hok : (build ⟨"/work/runs"⟩ ⟨"/work/runs.json"⟩ .epoch noRuns).1.isOk = true := by
    decide +kernel
  generalize hbuild : build ⟨"/work/runs"⟩ ⟨"/work/runs.json"⟩ .epoch noRuns = result at hok
  obtain ⟨error | catalog, last⟩ := result
  · contradiction
  · obtain ⟨hsource, hexact, -⟩ := build_spec hbuild
    have hlost : Run.directories (Disk.empty ⟨"/work"⟩) catalog.source = .error .files :=
      hsource ▸ directories_of_lost
    have hfail := refresh_of_unlisted .epoch hlost
    refine ⟨catalog, _, _, .build hbuild, hsource, hfail, ?_⟩
    refine (failed_refresh_sameAs_iff (.build hbuild) hfail).1.mpr ?_
    -- There was nothing to scan before, and there is nothing now.
    have hbefore : Run.scannedIn noRuns ⟨"/work/runs"⟩ = [] :=
      List.eq_nil_of_length_eq_zero (by decide +kernel)
    have hafter : Run.scannedIn (Disk.empty ⟨"/work"⟩) catalog.source = [] := by
      rw [Run.scannedIn, Run.listed, hlost]
      rfl
    rw [hafter, ← hbefore]
    exact hexact

/-- The run of a catalog is gone once a refresh has not found its directory. -/
theorem not_forall_failed_refresh_sameAs :
    ¬ ∀ (catalog after : Catalog) (now : Timestamp) (disk last : Disk) (error : Error),
      Reachable catalog → catalog.refresh now disk = (.error error, after, last) →
      catalog.SameAs after := by
  intro hall
  have hone : ((build ⟨"/work/runs"⟩ ⟨"/work/runs.json"⟩ .epoch oneRun).1.map
      fun catalog => catalog.all.length).toOption = some 1 := by
    decide +kernel
  generalize hbuild : build ⟨"/work/runs"⟩ ⟨"/work/runs.json"⟩ .epoch oneRun = result at hone
  obtain ⟨error | catalog, last⟩ := result
  · contradiction
  · have hlost : Run.directories (Disk.empty ⟨"/work"⟩) catalog.source = .error .files :=
      (build_spec hbuild).1 ▸ directories_of_lost
    have hsame := hall _ _ _ _ _ _ (.build hbuild) (refresh_of_unlisted .epoch hlost)
    have hnone : catalog.all = [] := (congrArg SortedMap.entries hsame.runs).symm
    simp [Except.map, Except.toOption, hnone] at hone

end Catalog

end Logbook
