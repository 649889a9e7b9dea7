import Logbook.Proofs.Catalog.Snapshot
import Logbook.Proofs.Disk.Files

/-!
# Runs and the names of their directories

A catalog knows its runs by number.  The number is read from the name of a directory, and the
directory is found again by the number, under its usual name.  Other names spell the same
number, with zeros at the start.  A catalog that has just been scanned agrees with its
directory if and only if every directory of a run has its usual name
(`Catalog.agrees_iff`).

## Strategy

What a catalog has under a number was scanned in some directory whose name spells it
(`exists_numbered_of_fresh`).  If that is the usual name, the two directories are one.
Conversely, if the document is what the directory of the usual name has, then there is such a
directory among those that are scanned (`Run.numbered_of_scan`): a path below it can be
followed, so it is a folder in the directory of the runs.
-/

namespace Logbook

namespace Run

open Outcome

variable {disk : Disk} {source : Path} {name : String} {id : RunId} {document : Document}

/-- A folder in a directory whose name spells a number, and its document: it has metadata. -/
structure Numbered (disk : Disk) (source : Path) (name : String) (id : RunId)
    (document : Document) : Prop where
  folder : ∃ entries files, disk.list source = .ok entries ∧ (name, Entry.folder files) ∈ entries
  id : id? name = some id
  scan : scan disk (source.join name) = .ok (some document)

theorem mem_listed_iff {run : RunId × Path} :
    run ∈ listed disk source ↔ ∃ name entries files, disk.list source = .ok entries ∧
      (name, Entry.folder files) ∈ entries ∧ id? name = some run.1 ∧ run.2 = source.join name := by
  unfold listed directories
  cases hlist : disk.list source with
  | error fault =>
    constructor
    · intro hrun
      cases hrun
    · rintro ⟨_, _, _, hentries, -⟩
      cases hentries
  | ok entries =>
    show run ∈ List.mergeSort _ _ ↔ _
    rw [List.mem_mergeSort, List.mem_filterMap]
    constructor
    · rintro ⟨⟨name, entry⟩, hentry, hnumber⟩
      cases entry with
      | file contents => cases hnumber
      | folder files =>
        obtain ⟨id, hid, rfl⟩ := Option.map_eq_some_iff.mp hnumber
        exact ⟨name, entries, files, rfl, hentry, hid, rfl⟩
    · rintro ⟨name, _, files, hentries, hentry, hid, hpath⟩
      cases hentries
      refine ⟨(name, .folder files), hentry, ?_⟩
      show (id? name).map _ = _
      rw [hid, Option.map_some, ← hpath]

/-- A run with a document has a file of metadata, so its path leads somewhere. -/
theorem exists_locate_of_scan {run : Path} (h : scan disk run = .ok (some document)) :
    ∃ place, disk.locate (metadata run "config") = .ok place := by
  obtain ⟨fields?, hfields, hrest⟩ := bind_eq_ok.mp h
  cases fields? with
  | none => cases hrest
  | some fields =>
    obtain ⟨value?, hread, hmore⟩ := bind_eq_ok.mp hfields
    cases value? with
    | none => cases hmore
    | some value =>
      cases htext : disk.readText (metadata run "config") with
      | ok text =>
        obtain ⟨place, hplace, -⟩ := Disk.readText_eq_ok.mp htext
        exact ⟨place, hplace⟩
      | error fault =>
        rw [readYaml?, htext] at hread
        cases fault <;> cases hread

theorem isPiece_name (id : RunId) : Path.IsPiece (Run.name id) := by
  constructor
  · intro hempty
    have hid := Store.id?_name id
    have hnone : id? "" = none := by decide
    rw [hempty, hnone] at hid
    cases hid
  · intro hslash
    exact absurd (Store.isDigit_of_mem_name hslash) (by decide)

theorem isName_name (id : RunId) : Disk.IsName (Run.name id) := by
  have hdot : ∀ text : String, '.' ∈ text.toList → Run.name id ≠ text := by
    rintro text htext rfl
    exact absurd (Store.isDigit_of_mem_name htext) (by decide)
  exact ⟨(isPiece_name id).1, hdot "." (by decide), hdot ".." (by decide)⟩

/-- Where the usual name of a number leads to a run, there is a directory of that name. -/
theorem numbered_of_scan {entries : List (String × Entry)} (hlist : disk.list source = .ok entries)
    (hscan : Run.scan disk (source.join (Run.name id)) = .ok (some document)) :
    Numbered disk source (Run.name id) id document := by
  obtain ⟨place, hplace⟩ := exists_locate_of_scan hscan
  have hparts : ∀ part ∈ [Run.name id, "metadata", "config.yaml"], Path.IsPiece part := by
    intro part hpart
    simp only [List.mem_cons, List.not_mem_nil, or_false] at hpart
    obtain rfl | rfl | rfl := hpart
    · exact isPiece_name id
    · exact ⟨by decide, by decide⟩
    · exact ⟨by decide, by decide⟩
  have hbelow : disk.locate ([Run.name id, "metadata", "config.yaml"].foldl Path.join source) =
      .ok place := by
    rw [List.foldl_cons, List.foldl_cons, List.foldl_cons, List.foldl_nil]
    exact hplace
  obtain ⟨files, hfiles⟩ := Disk.exists_folder_of_locate hparts (isName_name id) hlist hbelow
  exact ⟨⟨entries, files, hlist, hfiles⟩, Store.id?_name id, hscan⟩

end Run

namespace Catalog

variable {disk last : Disk} {catalog after : Catalog} {now : Timestamp} {name : String}
  {id : RunId} {document : Document}

/-- A catalog that has just been scanned on a disk, to build it or to refresh it. -/
inductive Fresh (disk : Disk) : Catalog → Prop
  | build {source snapshot : Path} {now : Timestamp} {catalog : Catalog} {last : Disk}
      (hrun : Catalog.build source snapshot now disk = (.ok catalog, last)) : Fresh disk catalog
  | refresh {before catalog : Catalog} {now : Timestamp} {last : Disk}
      (hrun : before.refresh now disk = (.ok (), catalog, last)) : Fresh disk catalog

theorem Fresh.exists_refresh (h : Fresh disk catalog) :
    ∃ before now last, Catalog.refresh before now disk = (.ok (), catalog, last) ∧
      catalog.source = before.source := by
  obtain ⟨before, now, last, hrefresh⟩ : ∃ before now last,
      Catalog.refresh before now disk = (.ok (), catalog, last) := by
    cases h with
    | build hrun => exact ⟨_, _, _, build_eq_ok.mp hrun⟩
    | refresh hrun => exact ⟨_, _, _, hrun⟩
  have hsource := source_refresh before now disk
  rw [hrefresh] at hsource
  exact ⟨before, now, last, hrefresh, hsource⟩

/-- A catalog and the directories of its runs agree: each document is what is in the directory
of its number, all numbered directories with metadata are there, and no two of them have one
number. -/
structure Agrees (disk : Disk) (catalog : Catalog) : Prop where
  documents (id : RunId) (document : Document) (hget : catalog.store.runs.get? id = some document) :
    Run.scan disk (catalog.runDirectory id) = .ok (some document)
  indexed (name : String) (id : RunId) (document : Document)
    (hnumbered : Run.Numbered disk catalog.source name id document) :
    ∃ document, catalog.store.runs.get? id = some document
  distinct (name other : String) (id : RunId) (document another : Document)
    (hnumbered : Run.Numbered disk catalog.source name id document)
    (hother : Run.Numbered disk catalog.source other id another) : name = other

/-! ## What has been scanned -/

/-- A scan that does not fail gets to all directories. -/
theorem exists_of_scan {directories : List (RunId × Path)}
    (h : catalog.scan disk directories = (.ok (), after)) {run : RunId × Path}
    (hrun : run ∈ directories) :
    ∃ document, (run, document) ∈ untilError (fun run => Run.scan disk run.2) directories := by
  induction directories generalizing catalog with
  | nil => cases hrun
  | cons first directories ih =>
    rw [scan_cons] at h
    rw [untilError]
    cases hfirst : Run.scan disk first.2 with
    | error error =>
      rw [hfirst] at h
      cases h
    | ok given =>
      rw [hfirst] at h
      rcases List.mem_cons.mp hrun with rfl | hmem
      · exact ⟨given, List.mem_cons_self⟩
      · obtain ⟨document, hdocument⟩ := ih h hmem
        exact ⟨document, List.mem_cons_of_mem _ hdocument⟩

theorem runs_of_fresh (h : Fresh disk catalog) :
    catalog.store.runs =
      SortedMap.ofList (Run.documentsOf (Run.scannedIn disk catalog.source)) := by
  obtain ⟨before, now, last, hrefresh, hsource⟩ := h.exists_refresh
  have hexact := (refresh_spec before now disk).1
  rw [hrefresh] at hexact
  rw [hsource]
  exact hexact.runs

/-- What a catalog has was scanned in a directory whose name spells the number. -/
theorem exists_numbered_of_fresh (h : Fresh disk catalog)
    (hget : catalog.store.runs.get? id = some document) :
    ∃ name, Run.Numbered disk catalog.source name id document := by
  rw [runs_of_fresh h] at hget
  obtain ⟨⟨run, document?⟩, hscanned, hdocument⟩ :=
    List.mem_filterMap.mp (SortedMap.mem_of_get?_ofList hget)
  obtain ⟨found, rfl, heq⟩ := Option.map_eq_some_iff.mp hdocument
  cases heq
  obtain ⟨name, entries, files, hlist, hfolder, hid, hpath⟩ :=
    Run.mem_listed_iff.mp (mem_of_mem_untilError hscanned).1
  refine ⟨name, ⟨entries, files, hlist, hfolder⟩, hid, ?_⟩
  rw [← hpath]
  exact (mem_of_mem_untilError hscanned).2

/-- Every numbered directory with metadata is in the catalog under its number. -/
theorem exists_get?_of_fresh (h : Fresh disk catalog)
    (hnumbered : Run.Numbered disk catalog.source name id document) :
    ∃ document, catalog.store.runs.get? id = some document := by
  obtain ⟨before, now, last, hrefresh, hsource⟩ := h.exists_refresh
  obtain ⟨directories, hdirectories, hscan, -⟩ := scan_of_refresh hrefresh
  obtain ⟨entries, files, hlist, hfolder⟩ := hnumbered.folder
  have hlisted : Run.listed disk catalog.source = directories := by
    rw [Run.listed, hsource, hdirectories]
    rfl
  have hrun : (id, catalog.source.join name) ∈ directories := by
    rw [← hlisted]
    exact Run.mem_listed_iff.mpr ⟨name, entries, files, hlist, hfolder, hnumbered.id, rfl⟩
  obtain ⟨result, hresult⟩ := exists_of_scan hscan hrun
  obtain rfl : some document = result :=
    Except.ok.inj (hnumbered.scan.symm.trans (mem_of_mem_untilError hresult).2)
  have hdocument : (id, document) ∈ Run.documentsOf (Run.scannedIn disk catalog.source) := by
    refine List.mem_filterMap.mpr ⟨((id, catalog.source.join name), some document), ?_, rfl⟩
    rw [Run.scannedIn, hlisted]
    exact hresult
  rw [runs_of_fresh h]
  exact SortedMap.exists_get?_ofList (List.mem_map_of_mem hdocument)

/-! ## Agreement -/

theorem agrees_of_names (h : Fresh disk catalog)
    (hnames : ∀ name id document, Run.Numbered disk catalog.source name id document →
      name = Run.name id) : catalog.Agrees disk where
  documents id document hget := by
    obtain ⟨name, hnumbered⟩ := exists_numbered_of_fresh h hget
    rw [runDirectory, ← hnames name id document hnumbered]
    exact hnumbered.scan
  indexed name id document hnumbered := exists_get?_of_fresh h hnumbered
  distinct name other id document another hnumbered hother :=
    (hnames name id document hnumbered).trans (hnames other id another hother).symm

/-- What a catalog has of a run it would find under the usual name, so there is a directory of
that name, and no other one of its number. -/
theorem name_of_agrees (h : catalog.Agrees disk)
    (hnumbered : Run.Numbered disk catalog.source name id document) : name = Run.name id := by
  obtain ⟨indexed, hget⟩ := h.indexed name id document hnumbered
  obtain ⟨entries, files, hlist, -⟩ := hnumbered.folder
  have husual : Run.Numbered disk catalog.source (Run.name id) id indexed :=
    Run.numbered_of_scan hlist (h.documents id indexed hget)
  exact h.distinct name (Run.name id) id document indexed hnumbered husual

/-- **A catalog that has just been scanned agrees with its directory if and only if** every
numbered directory with metadata has the usual name of its number. -/
theorem agrees_iff (h : Fresh disk catalog) :
    catalog.Agrees disk ↔ ∀ name id document,
      Run.Numbered disk catalog.source name id document → name = Run.name id :=
  ⟨fun hagrees _ _ _ => name_of_agrees hagrees, agrees_of_names h⟩

/-- The catalog of a single run, whose directory has the usual name. -/
theorem agrees_of_oneRun :
    ∃ catalog last, build ⟨"/work/runs"⟩ ⟨"/work/runs.json"⟩ .epoch oneRun = (.ok catalog, last) ∧
      catalog.all.length = 1 ∧ catalog.Agrees oneRun := by
  have hone : ((build ⟨"/work/runs"⟩ ⟨"/work/runs.json"⟩ .epoch oneRun).1.map
      fun catalog => catalog.all.length).toOption = some 1 := by decide +kernel
  have hlisted : ((oneRun.list ⟨"/work/runs"⟩).map fun entries =>
      entries.map Prod.fst).toOption = some ["1"] := by decide +kernel
  have hid : Run.id? "1" = some 1 := by decide +kernel
  obtain ⟨catalog, last, hbuild, hlength⟩ := Outcome.exists_eq_ok_of_seen hone
  refine ⟨catalog, last, hbuild, hlength, (agrees_iff (.build hbuild)).mpr ?_⟩
  intro name id document hnumbered
  obtain ⟨entries, files, hlist, hfolder⟩ := hnumbered.folder
  rw [(build_spec hbuild).1] at hlist
  rw [hlist] at hlisted
  have hnames : entries.map Prod.fst = ["1"] := Option.some.inj hlisted
  have hname : name ∈ entries.map Prod.fst := List.mem_map_of_mem hfolder
  rw [hnames] at hname
  obtain rfl : name = "1" := List.mem_singleton.mp hname
  obtain rfl : 1 = id := Option.some.inj (hid.symm.trans hnumbered.id)
  decide +kernel

/-- A disk with a run in `/work/runs` whose directory has zeros in front of its number. -/
def paddedRun : Disk :=
  ⟨⟨"/work"⟩, .folder [("runs", .folder [("007", .folder [("metadata", .folder
    [("config.yaml", .file (.text "seed: 1\n")),
      ("info.yaml", .file (.text "status: COMPLETE\n"))])])])]⟩

/-- The run with zeros in front of its number has the number, but is not found under it. -/
theorem not_forall_agrees :
    ¬ ∀ (disk : Disk) (catalog : Catalog), Fresh disk catalog → catalog.Agrees disk := by
  intro hall
  have hseven : ((build ⟨"/work/runs"⟩ ⟨"/work/runs.json"⟩ .epoch paddedRun).1.map
      fun catalog => (catalog.store.runs.get? 7).isSome).toOption = some true := by decide +kernel
  have hnone : (Run.scan paddedRun (Path.join ⟨"/work/runs"⟩ (Run.name 7))).toOption.map
      Option.isSome = some false := by decide +kernel
  obtain ⟨catalog, last, hbuild, hsome⟩ := Outcome.exists_eq_ok_of_seen hseven
  obtain ⟨document, hget⟩ := Option.isSome_iff_exists.mp hsome
  have hscan := (hall paddedRun catalog (.build hbuild)).documents 7 document hget
  rw [runDirectory, (build_spec hbuild).1] at hscan
  rw [hscan] at hnone
  cases hnone

end Catalog

end Logbook
