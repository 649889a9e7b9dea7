import Logbook.Proofs.Catalog.Refresh
import Logbook.Proofs.Store.Snapshot

/-!
# The snapshot of a catalog

A refresh that succeeds has written the snapshot of what it scanned.  A catalog that is opened
from there has the same runs, with the documents as they are read from the snapshot.
-/

namespace Logbook

namespace Catalog

variable {catalog after : Catalog} {now : Timestamp} {disk last : Disk}

/-! ## What a refresh writes -/

/-- A refresh that succeeds has listed the runs, scanned them all and saved the catalog. -/
theorem scan_of_refresh (h : catalog.refresh now disk = (.ok (), after, last)) :
    ∃ directories, Run.directories disk catalog.source = .ok directories ∧
      (catalog.cleared now).scan disk directories = (.ok (), after) ∧
      after.store.save after.snapshot disk = .ok last := by
  cases hdirectories : Run.directories disk catalog.source with
  | error error =>
    rw [refresh_of_unlisted now hdirectories] at h
    cases h
  | ok directories =>
    rw [refresh_of_listed now hdirectories] at h
    rcases hscan : (catalog.cleared now).scan disk directories with ⟨error | ⟨⟩, scanned⟩
    · rw [hscan] at h
      cases h
    · rw [hscan] at h
      cases hsave : scanned.store.save scanned.snapshot disk with
      | error error => simp [hsave] at h
      | ok written =>
        simp only [hsave, Prod.mk.injEq, true_and] at h
        obtain ⟨rfl, rfl⟩ := h
        exact ⟨directories, rfl, hscan, hsave⟩

/-- A refresh that succeeds has saved what it scanned, where the snapshot has always been. -/
theorem save_of_refresh (h : catalog.refresh now disk = (.ok (), after, last)) :
    after.snapshot = catalog.snapshot ∧ after.store.save after.snapshot disk = .ok last := by
  obtain ⟨directories, -, hscan, hsave⟩ := scan_of_refresh h
  have hsnapshot := (paths_scan disk (catalog.cleared now) directories).2
  rw [hscan] at hsnapshot
  exact ⟨hsnapshot, hsave⟩

theorem build_eq_ok {source snapshot : Path} :
    build source snapshot now disk = (.ok catalog, last) ↔
      (⟨source, snapshot, Store.empty source now, []⟩ : Catalog).refresh now disk =
        (.ok (), catalog, last) := by
  unfold build
  rcases refresh ⟨source, snapshot, Store.empty source now, []⟩ now disk with
    ⟨error | ⟨⟩, built, rest⟩
  · simp
  · simp

theorem mem_of_mem_untilError {α β : Type} {compute : α → Except Error β} {items : List α}
    {item : α} {result : β} (h : (item, result) ∈ untilError compute items) :
    item ∈ items ∧ compute item = .ok result := by
  induction items with
  | nil => cases h
  | cons first items ih =>
    rw [untilError] at h
    cases hfirst : compute first with
    | error error =>
      rw [hfirst] at h
      cases h
    | ok given =>
      rw [hfirst] at h
      rcases List.mem_cons.mp h with heq | hmem
      · cases heq
        exact ⟨List.mem_cons_self, hfirst⟩
      · exact ⟨List.mem_cons_of_mem _ (ih hmem).1, (ih hmem).2⟩

/-- Documents that have been scanned can be saved. -/
theorem plain_of_scanned {source : Path} :
    ∀ run ∈ (SortedMap.ofList (Run.documentsOf (Run.scannedIn disk source))).entries,
      run.2.Plain := by
  rintro ⟨id, document⟩ hrun
  have hmem := SortedMap.mem_of_mem_ofList hrun
  obtain ⟨⟨run, document?⟩, hscanned, hdocument⟩ := List.mem_filterMap.mp hmem
  obtain ⟨found, rfl, heq⟩ := Option.map_eq_some_iff.mp hdocument
  cases heq
  exact Run.plain_scan (mem_of_mem_untilError hscanned).2

theorem plain_of_refresh (h : catalog.refresh now disk = (.ok (), after, last)) :
    ∀ run ∈ after.store.runs.entries, run.2.Plain := by
  have hexact := (refresh_spec catalog now disk).1
  rw [h] at hexact
  rw [hexact.runs]
  exact plain_of_scanned

theorem indexed_of_refresh (h : catalog.refresh now disk = (.ok (), after, last)) :
    after.store.Indexed := by
  have hindexed := (refresh_spec catalog now disk).2
  rwa [h] at hindexed

/-! ## Opening -/

/-- **A catalog that is opened from the snapshot of a store has its runs**, with the documents
as they are read from there.  If one of them cannot be read, the snapshot cannot be. -/
theorem openOrBuild_of_readText {store : Store} {snapshot : Path}
    (hread : disk.readText snapshot = .ok store.toText) (source : Path) (now : Timestamp) :
    ((∀ run ∈ store.runs.entries, run.2.Loads) → ∃ opened,
        openOrBuild source snapshot now disk = (.ok opened, disk) ∧ opened.store.Indexed ∧
          opened.store.runs = Store.reloadRuns store.runs) ∧
      ((∃ run ∈ store.runs.entries, ¬ run.2.Loads) →
        openOrBuild source snapshot now disk = (.error (.corruptSnapshot snapshot), disk)) := by
  have hload := Store.load_of_readText hread
  unfold openOrBuild
  rw [if_pos (Disk.exists?_of_readText hread)]
  constructor
  · intro hall
    rw [if_pos hall] at hload
    exact ⟨⟨source, snapshot, store.reloaded, []⟩, by rw [hload]; rfl,
      Store.indexed_of_load hload, store.runs_reloaded⟩
  · rintro ⟨run, hrun, hspoilt⟩
    rw [if_neg fun hall => hspoilt (hall run hrun)] at hload
    rw [hload]
    rfl

end Catalog

end Logbook
