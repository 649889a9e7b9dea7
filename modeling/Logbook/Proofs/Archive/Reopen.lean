import Logbook.Proofs.Archive.Prepare
import Logbook.Proofs.Archive.Shown
import Logbook.Proofs.Catalog.Snapshot

/-!
# Opening a snapshot again

An archive that has just been built and one that is opened from its snapshot afterwards answer
all queries alike, unless a document has a double that is not finite.  JSON has no text for
these, so they are saved as null, and the second archive answers as if they had been null from
the start (`Archive.shown_reopened`).  This is so as long as the snapshot is read as the JSON
document that was written; in any case the second archive answers from the documents as they are
read from the snapshot (`Archive.exists_reopened`).

## Strategy

What the first archive shows is decided by the documents that were scanned, what the second
one shows by the documents that are read from the snapshot.  In between lies the disk: the
directory is prepared once more before the snapshot is read.
-/

namespace Logbook

/-- All doubles of a document are finite. -/
def Document.isFinite (document : Document) : Bool := Value.entriesAreFinite document.entries

theorem Document.asSaved_eq_self_iff {document : Document} (hplain : document.Plain) :
    document.asSaved = document ↔ document.isFinite = true := by
  have hentries : document.asSaved.entries = Value.entriesAsSaved document.entries :=
    (Value.entriesAsSaved_eq_map document.entries).symm
  have hplainEntries := Value.plainEntries_iff.mpr hplain
  rw [isFinite, ← Value.entriesAsSaved_eq_self_iff _ hplainEntries, ← hentries]
  exact ⟨congrArg SortedMap.entries, SortedMap.ext⟩

/-- The settings open the snapshot of an archive, without rebuilding it. -/
structure Settings.Reopens (settings : Settings) (archive : Archive) (disk : Disk) : Prop where
  refresh : settings.refresh = false
  destination : settings.destination.getD
    ((disk.canonical? settings.source).getD settings.source) = archive.destination
  snapshot : archive.destination.join (settings.name ++ ".json") = archive.catalog.snapshot

namespace Archive

open Entry Disk

/-- The archive has just written its snapshot, and this is the disk since then. -/
inductive JustBuilt : Archive → Disk → Prop
  /-- It has been opened, where the snapshot was to be rebuilt or there was none. -/
  | opened {settings : Settings} {parser : String → Except QueryError Predicate} {codecs : Codecs}
      {now : Timestamp} {disk last : Disk} {archive : Archive}
      (h : ofSettings settings parser codecs now disk = (.ok archive, last))
      (hbuilt : settings.refresh = true ∨ (prepare archive.destination disk).2.exists?
        (archive.destination.join (settings.name ++ ".json")) = false) : JustBuilt archive last
  /-- It has been refreshed, and its directory can still be written to. -/
  | refreshed {archive after : Archive} {now : Timestamp} {disk last : Disk}
      (h : archive.refresh now disk = (.ok (), after, last))
      (hready : (prepare after.destination last).1 = .ok ()) : JustBuilt after last

/-! ## What opening does -/

variable {archive : Archive} {settings : Settings} {disk last ready : Disk}

theorem ofSettings_eq (settings : Settings) (parser : String → Except QueryError Predicate)
    (codecs : Codecs) (now : Timestamp)
    (hprepare : prepare (settings.destination.getD
      ((disk.canonical? settings.source).getD settings.source)) disk = (.ok (), ready)) :
    ofSettings settings parser codecs now disk =
      let source := (disk.canonical? settings.source).getD settings.source
      let destination := settings.destination.getD source
      let snapshot := destination.join (settings.name ++ ".json")
      let (catalog, disk) :=
        if settings.refresh then Catalog.build source snapshot now ready
        else Catalog.openOrBuild source snapshot now ready
      (catalog.map fun catalog => ⟨source, destination, parser, codecs, catalog⟩, disk) := by
  unfold ofSettings
  dsimp only
  rw [hprepare]

theorem ofSettings_eq_ok {parser : String → Except QueryError Predicate} {codecs : Codecs}
    {now : Timestamp} (h : ofSettings settings parser codecs now disk = (.ok archive, last)) :
    archive.destination = settings.destination.getD
        ((disk.canonical? settings.source).getD settings.source) ∧
      ∃ ready source, prepare archive.destination disk = (.ok (), ready) ∧
      (if settings.refresh then
        Catalog.build source (archive.destination.join (settings.name ++ ".json")) now ready
      else
        Catalog.openOrBuild source (archive.destination.join (settings.name ++ ".json")) now ready) =
        (.ok archive.catalog, last) := by
  rcases hprepare : prepare (settings.destination.getD
    ((disk.canonical? settings.source).getD settings.source)) disk with ⟨error | ⟨⟩, ready⟩
  · simp [ofSettings, hprepare] at h
  · rw [ofSettings_eq settings parser codecs now hprepare] at h
    dsimp only at h
    rcases hcatalog : (if settings.refresh then Catalog.build _ _ now ready
      else Catalog.openOrBuild _ _ now ready : Except Error Catalog × Disk) with
      ⟨error | catalog, rest⟩
    · rw [hcatalog] at h
      cases h
    · rw [hcatalog] at h
      cases h
      exact ⟨rfl, ready, _, hprepare, hcatalog⟩

/-! ## Names of snapshots -/

theorem isName_json (front : String) : IsName (front ++ ".json") ∧ front ++ ".json" ≠ probe := by
  have hlast : (front ++ ".json").toList.getLast? = some 'n' := by
    rw [String.toList_append, List.getLast?_append]
    rfl
  have hne : ∀ name : String, name.toList.getLast? ≠ some 'n' → front ++ ".json" ≠ name := by
    rintro name hname rfl
    exact hname hlast
  exact ⟨⟨hne "" (by decide), hne "." (by decide), hne ".." (by decide)⟩, hne probe (by decide)⟩

theorem endsWith_json (destination : Path) (name : String) :
    ∃ front, (destination.join (name ++ ".json")).EndsWith (front ++ ".json") :=
  Path.exists_endsWith_join destination name (by decide)

/-- A snapshot can be read after its directory has been prepared again. -/
theorem readText_snapshot {store : Store} {destination snapshot : Path} {again : Disk}
    {name : String} (hsnapshot : destination.join (name ++ ".json") = snapshot)
    (hsave : store.save snapshot disk = .ok last)
    (hprepare : prepare destination last = (.ok (), again)) :
    again.readText snapshot = .ok store.toText := by
  obtain ⟨front, hpath⟩ := endsWith_json destination name
  rw [hsnapshot] at hpath
  obtain ⟨hname, hprobe⟩ := isName_json front
  exact readText_of_prepare hprepare hpath hname hprobe (Store.readText_of_save hsave)

/-- Saving a snapshot leaves its directory ready. -/
theorem ready_of_save {store : Store} {destination : Path} {name : String}
    (hready : Ready destination disk) (htop : disk.top.outlineAt? [] = some .folder)
    (hsave : store.save (destination.join (name ++ ".json")) disk = .ok last) :
    Ready destination last := by
  obtain ⟨front, hpath⟩ := endsWith_json destination name
  obtain ⟨hname, hprobe⟩ := isName_json front
  obtain ⟨folder, hleads⟩ := Store.leadsTo_of_save hpath hname htop hsave
  exact hready.of_write hleads hprobe (Store.write_of_save hsave)

/-! ## After a build -/

/-- An archive that is opened without a snapshot, or with one to be rebuilt, is built. -/
theorem build_of_opened {parser : String → Except QueryError Predicate} {codecs : Codecs}
    {now : Timestamp} (h : ofSettings settings parser codecs now disk = (.ok archive, last))
    (hbuilt : settings.refresh = true ∨ (prepare archive.destination disk).2.exists?
      (archive.destination.join (settings.name ++ ".json")) = false) :
    ∃ ready source, prepare archive.destination disk = (.ok (), ready) ∧
      Catalog.build source (archive.destination.join (settings.name ++ ".json")) now ready =
        (.ok archive.catalog, last) := by
  obtain ⟨-, ready, source, hprepare, hcatalog⟩ := ofSettings_eq_ok h
  refine ⟨ready, source, hprepare, ?_⟩
  rw [hprepare] at hbuilt
  by_cases hrefresh : settings.refresh = true
  · rwa [if_pos hrefresh] at hcatalog
  · rw [if_neg hrefresh, Catalog.openOrBuild, if_neg (by simp [hbuilt.resolve_left hrefresh])]
      at hcatalog
    exact hcatalog

/-- The archive has what a refresh has scanned, the snapshot was written last, and its
directory can be prepared. -/
theorem JustBuilt.exists_refresh (h : archive.JustBuilt last) :
    (∃ before now disk, Catalog.refresh before now disk = (.ok (), archive.catalog, last)) ∧
      ∃ again, prepare archive.destination last = (.ok (), again) := by
  cases h with
  | opened h hbuilt =>
    obtain ⟨ready, source, hprepare, hbuild⟩ := build_of_opened h hbuilt
    have hrun := Catalog.build_eq_ok.mp hbuild
    obtain ⟨hsnapshot, hsave⟩ := Catalog.save_of_refresh hrun
    rw [hsnapshot] at hsave
    obtain ⟨hready, -, hstay, htop, -⟩ := prepare_spec hprepare
    exact ⟨⟨_, _, ready, hrun⟩, prepare_of_ready (ready_of_save hready (hstay [] htop) hsave)⟩
  | refreshed h hready =>
    next archive now disk =>
    rcases hrun : archive.catalog.refresh now disk with ⟨outcome, catalog, written⟩
    rw [Archive.refresh, hrun] at h
    cases h
    exact ⟨⟨archive.catalog, now, disk, hrun⟩, _, Prod.ext hready rfl⟩

/-- The documents of an archive as they are saved. -/
def savedRuns (archive : Archive) : List (RunId × Document) :=
  archive.catalog.all.map fun run => (run.1, run.2.asSaved)

/-- Saving keeps all documents exactly if their doubles are finite. -/
theorem savedRuns_eq_all_iff (hplain : ∀ run ∈ archive.catalog.all, run.2.Plain) :
    archive.savedRuns = archive.catalog.all ↔
      ∀ run ∈ archive.catalog.all, run.2.isFinite = true := by
  have hself : archive.catalog.all = archive.catalog.all.map fun run => run := by simp
  constructor
  · intro heq run hrun
    have hmap : archive.savedRuns = archive.catalog.all.map fun run => run := by
      rw [heq, ← hself]
    have hsaved := List.map_inj_left.mp hmap run hrun
    exact (Document.asSaved_eq_self_iff (hplain run hrun)).mp (congrArg Prod.snd hsaved)
  · intro hfinite
    have hmap : archive.savedRuns = archive.catalog.all.map fun run => run := by
      refine List.map_congr_left fun run hrun => ?_
      exact Prod.ext rfl ((Document.asSaved_eq_self_iff (hplain run hrun)).mpr (hfinite run hrun))
    rw [hmap, ← hself]

theorem shown_of_all {other : Archive} {runs : List (RunId × Document)}
    (hparser : other.parser = archive.parser) (hindexed : other.catalog.store.Indexed)
    (hall : other.catalog.all = runs) (query : String) (disk : Disk) (shelf : Shelf) :
    other.shown query disk shelf = archive.answer runs query := by
  rw [shown_of_indexed hindexed, hall, answer, answer, test, test, hparser]

/-- An archive that is opened from a snapshot shows the documents as they are read from there,
unless one of them cannot be read. -/
theorem exists_reopened (hbuilt : archive.JustBuilt last) (hreopens : settings.Reopens archive last)
    (later : Timestamp) :
    ((∀ run ∈ archive.catalog.all, run.2.Loads) → ∃ reopened after,
        ofSettings settings archive.parser archive.codecs later last = (.ok reopened, after) ∧
        ∀ query disk shelf, reopened.shown query disk shelf =
          archive.answer (Store.reloadRuns archive.catalog.store.runs).entries query) ∧
      ((∃ run ∈ archive.catalog.all, ¬ run.2.Loads) → ∃ after,
        ofSettings settings archive.parser archive.codecs later last =
          (.error (.corruptSnapshot archive.catalog.snapshot), after)) := by
  obtain ⟨⟨before, now, disk, hrun⟩, again, hprepare⟩ := hbuilt.exists_refresh
  -- Opening prepares the directory once more, and the snapshot is still there then.
  have hread := readText_snapshot hreopens.snapshot (Catalog.save_of_refresh hrun).2 hprepare
  have hopen := ofSettings_eq settings archive.parser archive.codecs later
    (hreopens.destination ▸ hprepare)
  dsimp only at hopen
  rw [hreopens.refresh, if_neg (by decide), hreopens.destination, hreopens.snapshot] at hopen
  obtain ⟨hloads, hspoilt⟩ := Catalog.openOrBuild_of_readText hread
    ((last.canonical? settings.source).getD settings.source) later
  constructor
  · intro hall
    obtain ⟨catalog, hcatalog, hindexed, hruns⟩ := hloads hall
    rw [hcatalog] at hopen
    obtain ⟨reopened, hreopened, hparser, rfl⟩ : ∃ reopened : Archive,
        ofSettings settings archive.parser archive.codecs later last = (.ok reopened, again) ∧
          reopened.parser = archive.parser ∧ reopened.catalog = catalog := ⟨_, hopen, rfl, rfl⟩
    have hall : reopened.catalog.all = (Store.reloadRuns archive.catalog.store.runs).entries :=
      congrArg SortedMap.entries hruns
    exact ⟨reopened, again, hreopened, shown_of_all hparser hindexed hall⟩
  · intro hsome
    rw [hspoilt hsome] at hopen
    exact ⟨again, hopen⟩

/-- If the snapshot is read as the document that was written, the archive that is opened from it
shows the documents as they are saved. -/
theorem exists_reopened_of_read (hbuilt : archive.JustBuilt last)
    (hreopens : settings.Reopens archive last) (later : Timestamp)
    (hread : Json.read archive.catalog.store.toText = some archive.catalog.store.toJson) :
    ∃ reopened after,
      ofSettings settings archive.parser archive.codecs later last = (.ok reopened, after) ∧
      ∀ query disk shelf,
        reopened.shown query disk shelf = archive.answer archive.savedRuns query := by
  obtain ⟨⟨_, _, _, hrun⟩, -⟩ := hbuilt.exists_refresh
  have hruns := Store.read_toText_iff.mp hread
  have hsaved : (Store.reloadRuns archive.catalog.store.runs).entries = archive.savedRuns := by
    rw [Store.reloadRuns_of_faithful
      (fun run hmem => (Catalog.plain_of_refresh hrun run hmem).ordered)
      fun run hmem => (hruns run hmem).2]
    rfl
  rw [← hsaved]
  exact (exists_reopened hbuilt hreopens later).1 fun run hmem =>
    (hruns run hmem).2.loads (hruns run hmem).1

/-- Two archives show the same for all queries exactly if saving changes no document, where
the other one shows what has been saved. -/
theorem shown_same_iff {other : Archive} (hbuilt : archive.JustBuilt last)
    (hother : ∀ query disk shelf,
      other.shown query disk shelf = archive.answer archive.savedRuns query) :
    (∀ query disk shelf before, other.shown query disk shelf = archive.shown query disk before) ↔
      ∀ run ∈ archive.catalog.all, run.2.isFinite = true := by
  obtain ⟨⟨_, _, _, hrun⟩, -⟩ := hbuilt.exists_refresh
  have hbefore := shown_of_indexed (Catalog.indexed_of_refresh hrun)
  rw [← savedRuns_eq_all_iff (Catalog.plain_of_refresh hrun)]
  constructor
  · -- The blank query shows all documents, so it tells two archives apart.
    intro hsame
    have hblank := hsame "" last {} {}
    rw [hother, hbefore, answer_blank, answer_blank, Except.ok.injEq] at hblank
    refine List.map_injective_iff.mpr ?_ hblank
    rintro ⟨id, document⟩ ⟨other, document'⟩ heq
    cases heq
    rfl
  · intro hsame query disk shelf before
    rw [hother, hbefore, hsame]

/-- The settings with which an archive was built open its snapshot again, where its source is a
folder. -/
theorem reopens_of_opened {parser : String → Except QueryError Predicate} {codecs : Codecs}
    {now : Timestamp} (h : ofSettings settings parser codecs now disk = (.ok archive, last))
    (hbuilt : settings.refresh = true ∨ (prepare archive.destination disk).2.exists?
      (archive.destination.join (settings.name ++ ".json")) = false)
    (hsource : disk.isFolder settings.source = true) :
    ({ settings with refresh := false } : Settings).Reopens archive last := by
  obtain ⟨ready, source, hprepare, hbuild⟩ := build_of_opened h hbuilt
  obtain ⟨hsnapshot, hsave⟩ := Catalog.save_of_refresh (Catalog.build_eq_ok.mp hbuild)
  rw [hsnapshot] at hsave
  obtain ⟨-, hhome, hstay, htop, -⟩ := prepare_spec hprepare
  obtain ⟨hhomeL, hstayL⟩ : last.home = ready.home ∧ FoldersStay ready.top last.top := by
    obtain ⟨front, hpath⟩ := endsWith_json archive.destination settings.name
    obtain ⟨folder, hleads⟩ :=
      Store.leadsTo_of_save hpath (isName_json front).1 (hstay [] htop) hsave
    obtain ⟨hhomeL, hstayL, -⟩ := write_spec hleads (Store.write_of_save hsave)
    exact ⟨hhomeL, hstayL⟩
  refine ⟨rfl, ?_, hsnapshot.symm⟩
  rw [(ofSettings_eq_ok h).1,
    canonical?_of_foldersStay hsource (hhomeL.trans hhome) (hstay.trans hstayL)]

/-- **An archive that is opened from a snapshot answers as the one that has just built it, with
null in the place of each double that is not finite**, as long as the snapshot is read as the JSON
document that was written.  So both give the same answers to all queries exactly if the documents
have finite doubles only.  A snapshot with a document that is nested too deep cannot be opened. -/
theorem shown_reopened (hbuilt : archive.JustBuilt last)
    (hreopens : settings.Reopens archive last) (later : Timestamp) :
    (Json.read archive.catalog.store.toText = some archive.catalog.store.toJson →
        ∃ reopened after,
        ofSettings settings archive.parser archive.codecs later last = (.ok reopened, after) ∧
        (∀ query disk shelf,
          reopened.shown query disk shelf = archive.answer archive.savedRuns query) ∧
        ((∀ query disk shelf before,
            reopened.shown query disk shelf = archive.shown query disk before) ↔
          ∀ run ∈ archive.catalog.all, run.2.isFinite = true)) ∧
      ((∃ run ∈ archive.catalog.all, ¬ run.2.Shallow) → ∃ after,
        ofSettings settings archive.parser archive.codecs later last =
          (.error (.corruptSnapshot archive.catalog.snapshot), after)) := by
  constructor
  · intro hread
    obtain ⟨reopened, after, hopened, hshown⟩ :=
      exists_reopened_of_read hbuilt hreopens later hread
    exact ⟨reopened, after, hopened, hshown, shown_same_iff hbuilt hshown⟩
  · rintro ⟨run, hmem, hdeep⟩
    exact (exists_reopened hbuilt hreopens later).2 ⟨run, hmem, fun hloads => hdeep hloads.1⟩

/-- A disk with one run in `/work/runs`, of which this is the configuration. -/
def oneConfiguration (text : String) : Disk :=
  ⟨⟨"/work"⟩, .folder [("runs", .folder [("1", .folder [("metadata", .folder
    [("config.yaml", .file (.text text)),
      ("info.yaml", .file (.text "status: COMPLETE\n"))])])])]⟩

/-- A double and a nested list are there again after the snapshot is opened. -/
theorem shown_reopened_of_nested_lists :
    ∃ archive last reopened after, archive.JustBuilt last ∧
      Settings.Reopens { source := ⟨"/work/runs"⟩ } archive last ∧
      Json.read archive.catalog.store.toText = some archive.catalog.store.toJson ∧
      (archive.catalog.all.map fun run => (run.1, run.2.keys)) =
        [(1, ["config.layers", "info.status"])] ∧
      ofSettings { source := ⟨"/work/runs"⟩ } archive.parser archive.codecs .epoch last =
        (.ok reopened, after) ∧
      ∀ query disk shelf before,
        reopened.shown query disk shelf = archive.shown query disk before := by
  have hfacts : ((ofSettings { source := ⟨"/work/runs"⟩, refresh := true } Query.parse .standard
      .epoch (oneConfiguration "layers: [1.5, [x, -7]]\n")).1.map
        fun archive => (archive.catalog.all.map fun run => (run.1, run.2.keys),
          archive.catalog.all.all fun run =>
            decide (run.2.Shallow ∧ run.2.Faithful) && run.2.isFinite)).toOption =
      some ([(1, ["config.layers", "info.status"])], true) := by
    decide +kernel
  rcases hopen : ofSettings { source := ⟨"/work/runs"⟩, refresh := true } Query.parse .standard
    .epoch (oneConfiguration "layers: [1.5, [x, -7]]\n") with
    ⟨error | archive, last⟩
  · rw [hopen] at hfacts
    cases hfacts
  · rw [hopen] at hfacts
    obtain ⟨hkeys, hall⟩ := Prod.mk.inj (Option.some.inj hfacts)
    simp only [List.all_eq_true, Bool.and_eq_true, decide_eq_true_eq] at hall
    have hbuilt : archive.JustBuilt last := .opened hopen (.inl rfl)
    have hreopens := reopens_of_opened hopen (.inl rfl) (by decide +kernel)
    have hread : Json.read archive.catalog.store.toText = some archive.catalog.store.toJson :=
      Store.read_toText_iff.mpr fun run hrun => (hall run hrun).1
    obtain ⟨reopened, after, hreopened, -, hsame⟩ :=
      (shown_reopened hbuilt hreopens .epoch).1 hread
    exact ⟨archive, last, reopened, after, hbuilt, hreopens, hread, hkeys, hreopened,
      hsame.mpr fun run hrun => (hall run hrun).2⟩

/-- An infinite double is null when the snapshot is opened again. -/
theorem not_forall_shown_reopened :
    ¬ ∀ (archive reopened : Archive) (settings : Settings) (later : Timestamp) (last after : Disk),
      archive.JustBuilt last → settings.Reopens archive last →
      Json.read archive.catalog.store.toText = some archive.catalog.store.toJson →
      ofSettings settings archive.parser archive.codecs later last = (.ok reopened, after) →
      ∀ query disk shelf before,
        reopened.shown query disk shelf = archive.shown query disk before := by
  intro hsame
  have hfacts : ((ofSettings { source := ⟨"/work/runs"⟩, refresh := true } Query.parse .standard
      .epoch (oneConfiguration "lr: .inf\n")).1.map
        fun archive => archive.catalog.all.map fun run =>
          (decide (run.2.Shallow ∧ run.2.Faithful), run.2.isFinite)).toOption =
            some [(true, false)] := by
    decide +kernel
  rcases hopen : ofSettings { source := ⟨"/work/runs"⟩, refresh := true } Query.parse .standard
    .epoch (oneConfiguration "lr: .inf\n") with ⟨error | archive, last⟩
  · rw [hopen] at hfacts
    cases hfacts
  · rw [hopen] at hfacts
    obtain ⟨run, hruns, hrun⟩ := List.map_eq_singleton_iff.mp (Option.some.inj hfacts)
    obtain ⟨hreads, hinfinite⟩ := Prod.mk.inj hrun
    have hbuilt : archive.JustBuilt last := .opened hopen (.inl rfl)
    have hreopens := reopens_of_opened hopen (.inl rfl) (by decide +kernel)
    have hread : Json.read archive.catalog.store.toText = some archive.catalog.store.toJson := by
      refine Store.read_toText_iff.mpr fun other hother => ?_
      have hmem : other ∈ archive.catalog.all := hother
      rw [hruns, List.mem_singleton] at hmem
      rw [hmem]
      exact of_decide_eq_true hreads
    obtain ⟨reopened, after, hreopened, hshown⟩ :=
      exists_reopened_of_read hbuilt hreopens .epoch hread
    have hfinite := (shown_same_iff hbuilt hshown).mp
      (hsame archive reopened _ .epoch last after hbuilt hreopens hread hreopened)
    rw [hfinite run (hruns ▸ List.mem_singleton_self run)] at hinfinite
    cases hinfinite

end Archive

end Logbook
