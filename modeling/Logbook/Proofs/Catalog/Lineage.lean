import Logbook.Proofs.Catalog.Snapshot
import Logbook.Proofs.Store.Reload

/-!
# Where a catalog comes from

The header of a snapshot names the directory that was scanned.  Nobody looks at it when a
catalog is opened, and nobody renews it when a catalog is refreshed.  So it names the
directory for which the catalog was built that the snapshot goes back to, over any number of
openings and refreshes, and that is the directory of the catalog if and only if the two are the
same (`Catalog.source_eq_iff`).  The documents are of yet another directory, perhaps: of the one
that was scanned last.

## Strategy

`Catalog.Descends` follows both directories through everything that makes a catalog, and with
the second one the disk on which it was scanned.  A store is the same under all of this in what a
snapshot keeps: the header is the one that was written (`header_of_descends`), and the documents
are the ones that were scanned, saved and loaded as often as the snapshot was opened since
(`hasRunsOf_of_descends`).
-/

namespace Logbook

namespace Catalog

variable {root scanned source snapshot : Path} {now : Timestamp} {seen disk last : Disk}
  {catalog before : Catalog}

/-! ## Lineages -/

/-- The catalogs that there can be, each with the directory for which the first of its line
was built, the directory that was scanned last, and the disk of that moment.  A catalog is
built, or built because there is no snapshot to open, or opened from the snapshot of another one,
or refreshed; refreshing may fail. -/
inductive Descends : (root scanned : Path) → (seen : Disk) → Catalog → Prop
  | build {source snapshot : Path} {now : Timestamp} {disk last : Disk} {catalog : Catalog}
      (hrun : Catalog.build source snapshot now disk = (.ok catalog, last)) :
      Descends source source disk catalog
  | create {source snapshot : Path} {now : Timestamp} {disk last : Disk} {catalog : Catalog}
      (habsent : disk.exists? snapshot = false)
      (hrun : openOrBuild source snapshot now disk = (.ok catalog, last)) :
      Descends source source disk catalog
  | reopen {root scanned source snapshot : Path} {now : Timestamp} {seen disk last : Disk}
      {writer catalog : Catalog} (hwriter : Descends root scanned seen writer)
      (hread : disk.readText snapshot = .ok writer.store.toText)
      (hrun : openOrBuild source snapshot now disk = (.ok catalog, last)) :
      Descends root scanned seen catalog
  | refresh {root scanned : Path} {seen : Disk} {before : Catalog}
      (hbefore : Descends root scanned seen before) (now : Timestamp) (disk : Disk) :
      Descends root before.source disk (before.refresh now disk).2.1

/-- The documents that are scanned in a directory, up to the first that fails. -/
def scannedRuns (scanned : Path) (seen : Disk) : SortedMap RunId Document :=
  SortedMap.ofList (Run.documentsOf (Run.scannedIn seen scanned))

/-- The documents were scanned in a directory of a disk, and perhaps saved and loaded since, any
number of times. -/
def HasRunsOf (scanned : Path) (seen : Disk) (catalog : Catalog) : Prop :=
  ∃ times, catalog.store.runs = Store.reloadRuns^[times] (scannedRuns scanned seen)

/-- Where all doubles are read as themselves, it does not matter how often. -/
theorem HasRunsOf.eq_or_eq (h : catalog.HasRunsOf scanned seen)
    (hfaithful : ∀ run ∈ (scannedRuns scanned seen).entries, run.2.Faithful) :
    catalog.store.runs = scannedRuns scanned seen ∨
      catalog.store.runs = (scannedRuns scanned seen).mapValues fun _ document =>
        document.asSaved := by
  obtain ⟨times, hruns⟩ := h
  rw [hruns]
  cases times with
  | zero => exact .inl rfl
  | succ times =>
    have hsaved : Store.reloadRuns (scannedRuns scanned seen) = _ :=
      Store.reloadRuns_of_faithful (fun run hrun => (plain_of_scanned run hrun).ordered) hfaithful
    have hfixed := (Store.reloadRuns_asSaved (scannedRuns scanned seen)).trans hsaved
    rw [Function.iterate_succ_apply, hsaved, Function.iterate_fixed hfixed]
    exact .inr rfl

/-! ## Steps -/

/-- A refresh renews the time in the header, not the directory. -/
theorem header_refresh (before : Catalog) (now : Timestamp) (disk : Disk) :
    (before.refresh now disk).2.1.store.header.source = before.store.header.source := by
  rw [catalog_refresh, header_scan]
  rfl

theorem hasRunsOf_refresh (before : Catalog) (now : Timestamp) (disk : Disk) :
    (before.refresh now disk).2.1.HasRunsOf before.source disk :=
  ⟨0, (refresh_spec before now disk).1.runs⟩

/-- A catalog that is built is one without runs, refreshed. -/
theorem eq_refresh_of_build (hrun : build source snapshot now disk = (.ok catalog, last)) :
    catalog =
      ((⟨source, snapshot, Store.empty source now, []⟩ : Catalog).refresh now disk).2.1 := by
  rw [build_eq_ok.mp hrun]

theorem build_of_absent (habsent : disk.exists? snapshot = false)
    (hrun : openOrBuild source snapshot now disk = (.ok catalog, last)) :
    build source snapshot now disk = (.ok catalog, last) := by
  rw [openOrBuild, habsent] at hrun
  exact hrun

/-- A catalog that is opened has what was saved, under the directory that is asked for. -/
theorem eq_of_reopen {writer : Catalog}
    (hread : disk.readText snapshot = .ok writer.store.toText)
    (hrun : openOrBuild source snapshot now disk = (.ok catalog, last)) :
    catalog = ⟨source, snapshot, writer.store.reloaded, []⟩ := by
  have hload := Store.load_of_readText hread
  rw [openOrBuild, if_pos (Disk.exists?_of_readText hread), hload] at hrun
  split_ifs at hrun
  · cases hrun
    rfl
  · cases hrun

/-! ## Lines -/

/-- The header names the directory for which the first catalog of the line was built. -/
theorem header_of_descends (h : Descends root scanned seen catalog) :
    catalog.store.header.source = root := by
  induction h with
  | build hrun =>
    rw [eq_refresh_of_build hrun]
    exact header_refresh _ _ _
  | create habsent hrun =>
    rw [eq_refresh_of_build (build_of_absent habsent hrun)]
    exact header_refresh _ _ _
  | reopen _ hread hrun ih =>
    rw [eq_of_reopen hread hrun]
    exact (congrArg Header.source (Store.header_reloaded _)).trans ih
  | refresh _ now disk ih => exact (header_refresh _ now disk).trans ih

theorem hasRunsOf_of_descends (h : Descends root scanned seen catalog) :
    catalog.HasRunsOf scanned seen := by
  induction h with
  | build hrun =>
    rw [eq_refresh_of_build hrun]
    exact hasRunsOf_refresh _ _ _
  | create habsent hrun =>
    rw [eq_refresh_of_build (build_of_absent habsent hrun)]
    exact hasRunsOf_refresh _ _ _
  | reopen _ hread hrun ih =>
    obtain ⟨times, hruns⟩ := ih
    refine ⟨times + 1, ?_⟩
    rw [eq_of_reopen hread hrun, Function.iterate_succ_apply', ← hruns]
    exact Store.runs_reloaded _
  | refresh _ now disk _ => exact hasRunsOf_refresh _ now disk

/-- **The header of a catalog names its own directory if and only if** the first catalog of the
line was built for it.  The documents are those of the directory that was scanned last, as it
was then; where all doubles are read as themselves, they are unchanged or as they are saved. -/
theorem source_eq_iff (h : Descends root scanned seen catalog) :
    (catalog.store.header.source = catalog.source ↔ root = catalog.source) ∧
      catalog.HasRunsOf scanned seen ∧
      ((∀ run ∈ (scannedRuns scanned seen).entries, run.2.Faithful) →
        catalog.store.runs = scannedRuns scanned seen ∨
          catalog.store.runs = (scannedRuns scanned seen).mapValues fun _ document =>
            document.asSaved) := by
  have hruns := hasRunsOf_of_descends h
  rw [header_of_descends h]
  exact ⟨Iff.rfl, hruns, hruns.eq_or_eq⟩

/-- A disk with one run in `/work/left` and none in `/work/right`. -/
def twoSources : Disk :=
  ⟨⟨"/work"⟩, .folder [
    ("left", .folder [("1", .folder [("metadata", .folder
      [("config.yaml", .file (.text "seed: 1\n")),
        ("info.yaml", .file (.text "status: COMPLETE\n"))])])]),
    ("right", .folder [])]⟩

/-- What `/work/left` is built into can be opened again for any directory. -/
theorem exists_reopen_of_left (source : Path) :
    ∃ catalog last opened, build ⟨"/work/left"⟩ ⟨"/work/runs.json"⟩ .epoch twoSources =
        (.ok catalog, last) ∧
      openOrBuild source ⟨"/work/runs.json"⟩ .epoch last = (.ok opened, last) ∧
      opened.source = source ∧ Descends ⟨"/work/left"⟩ ⟨"/work/left"⟩ twoSources opened := by
  have hall : ((build ⟨"/work/left"⟩ ⟨"/work/runs.json"⟩ .epoch twoSources).1.map fun catalog =>
      decide (∀ run ∈ catalog.store.runs.entries, run.2.Loads)).toOption = some true := by
    decide +kernel
  obtain ⟨catalog, last, hbuild, hdecided⟩ := Outcome.exists_eq_ok_of_seen hall
  have hloads : ∀ run ∈ catalog.store.runs.entries, run.2.Loads := of_decide_eq_true hdecided
  have hrefresh := build_eq_ok.mp hbuild
  obtain ⟨hsnapshot, hsave⟩ := save_of_refresh hrefresh
  have hread : last.readText ⟨"/work/runs.json"⟩ = .ok catalog.store.toText := by
    have hsaved := Store.readText_of_save hsave
    rwa [hsnapshot] at hsaved
  obtain ⟨opened, hopen, -, -⟩ := (openOrBuild_of_readText hread source .epoch).1 hloads
  have hline : Descends ⟨"/work/left"⟩ ⟨"/work/left"⟩ twoSources catalog := .build hbuild
  have hsource : opened.source = source := congrArg Catalog.source (eq_of_reopen hread hopen)
  exact ⟨catalog, last, opened, hbuild, hopen, hsource, .reopen hline hread hopen⟩

/-- A catalog that is opened for the directory for which its snapshot was built. -/
theorem source_eq_of_left :
    ∃ catalog last opened, build ⟨"/work/left"⟩ ⟨"/work/runs.json"⟩ .epoch twoSources =
        (.ok catalog, last) ∧
      openOrBuild ⟨"/work/left"⟩ ⟨"/work/runs.json"⟩ .epoch last = (.ok opened, last) ∧
      opened.store.header.source = opened.source ∧
      opened.HasRunsOf opened.source twoSources := by
  obtain ⟨catalog, last, opened, hbuild, hopen, hsource, hline⟩ :=
    exists_reopen_of_left ⟨"/work/left"⟩
  obtain ⟨hiff, hruns, -⟩ := source_eq_iff hline
  exact ⟨catalog, last, opened, hbuild, hopen, hiff.mpr hsource.symm, hsource ▸ hruns⟩

/-- A catalog that is opened for another directory than the one its snapshot was built for has
the header of that one. -/
theorem not_forall_source_eq :
    ¬ ∀ (root scanned : Path) (seen : Disk) (catalog : Catalog),
      Descends root scanned seen catalog → catalog.store.header.source = catalog.source := by
  intro hall
  obtain ⟨catalog, last, opened, hbuild, hopen, hsource, hline⟩ :=
    exists_reopen_of_left ⟨"/work/right"⟩
  have hheader := hall _ _ _ opened hline
  rw [header_of_descends hline, hsource] at hheader
  exact absurd hheader (by decide)

end Catalog

end Logbook
