import Logbook.Proofs.Catalog.Numbered
import Logbook.Proofs.Store.Exact

/-!
# A catalog is a complete scan

Whatever a catalog had before, building it or refreshing it makes it a scan of its directory
(`Catalog.complete_of_renewed`).  The runs are the numbered folders that have both files of
metadata, the other numbered folders are reported as skipped, the field table has the keys of
all documents, each with the kind that the last run with the key gave it, and the index is
exact.  A numbered folder is one whose name is made of digits and spells a number of 64 bits.
Folders with greater numbers are passed over without a report
(`Catalog.not_forall_skipped_of_digits`).

## Strategy

A refresh that succeeds has scanned all numbered folders, in the order of their numbers, so what
it has scanned is a map over their names (`Run.scannedIn_of_refresh`).  Each part of the catalog
is a function of that list.  For the field table the induction goes from its end, since later
documents count before earlier ones (`Run.get?_kindsOf_append`).  That nothing else has a part in
it is shown apart: two scans that start with the same contents go on with the same contents.
-/

namespace Logbook

namespace Run

open Outcome

/-! ## Numbered folders -/

/-- The names of the folders in a directory; none if it cannot be listed. -/
def folders (disk : Disk) (source : Path) : List String :=
  ((disk.list source).toOption.getD []).filterMap fun (name, entry) =>
    match entry with
    | .folder _ => some name
    | .file _ => none

/-- Whether a name is made of digits. -/
def isNumeral (name : String) : Bool := name != "" && name.toList.all Char.isDigit

/-- The number that digits spell. -/
def number (name : String) : Nat := Decimal.ofDigits name.toList

/-- The names of the folders in a directory that spell the number of a run. -/
def numbered (disk : Disk) (source : Path) : List String :=
  (folders disk source).filter fun name => isNumeral name && number name < UInt64.size

/-- Whether a run has all files of metadata. -/
def hasMetadata (disk : Disk) (run : Path) : Bool :=
  metadataGroups.all fun group => disk.isFile (metadata run group)

/-- A numbered folder with metadata, and its document. -/
structure Scanned (disk : Disk) (source : Path) (name : String) (document : Document) : Prop where
  numbered : name ∈ numbered disk source
  scan : scan disk (source.join name) = .ok (some document)

variable {disk : Disk} {source : Path} {name : String}

theorem id?_eq (name : String) :
    id? name = if isNumeral name && number name < UInt64.size then
      some (UInt64.ofNat (number name)) else none := by
  unfold id? isNumeral number
  by_cases hempty : name = ""
  · simp [hempty]
  by_cases hdigits : name.toList.all Char.isDigit = true
  · by_cases hbound : Decimal.ofDigits name.toList < UInt64.size
    · simp only [beq_eq_false_iff_ne.mpr hempty, hdigits, hbound, bne, Bool.not_true, Bool.or_self,
        Bool.not_false, Bool.and_self, decide_true, Bool.false_eq_true, if_false, if_true, dif_pos]
      exact congrArg some (UInt64.ofNatLT_eq_ofNat _)
    · simp [hempty, hbound]
  · simp [hdigits]

/-- The numbered folders, in the order of their numbers. -/
def inOrder (disk : Disk) (source : Path) : List String :=
  (numbered disk source).mergeSort fun left right => number left ≤ number right

theorem mem_inOrder : name ∈ inOrder disk source ↔ name ∈ numbered disk source :=
  List.mem_mergeSort

theorem pairwise_inOrder (disk : Disk) (source : Path) :
    (inOrder disk source).Pairwise fun left right => number left ≤ number right := by
  have hsorted : (inOrder disk source).Pairwise fun left right =>
      decide (number left ≤ number right) = true := by
    apply List.pairwise_mergeSort
    · intro first second third hfirst hsecond
      rw [decide_eq_true_eq] at hfirst hsecond ⊢
      exact hfirst.trans hsecond
    · intro left right
      rw [Bool.or_eq_true, decide_eq_true_eq, decide_eq_true_eq]
      exact Nat.le_total _ _
  exact hsorted.imp of_decide_eq_true

theorem toNat_number (h : name ∈ numbered disk source) :
    (UInt64.ofNat (number name)).toNat = number name := by
  have hbound := (List.mem_filter.mp h).2
  rw [Bool.and_eq_true, decide_eq_true_eq] at hbound
  exact Nat.mod_eq_of_lt hbound.2

/-- The run in a numbered folder. -/
def runIn (source : Path) (name : String) : RunId × Path :=
  (UInt64.ofNat (number name), source.join name)

theorem map_id?_eq (source : Path) (name : String) :
    (id? name).map (fun id => (id, source.join name)) =
      if isNumeral name && number name < UInt64.size then some (runIn source name) else none := by
  rw [id?_eq]
  split <;> rfl

/-- The runs that are listed are the numbered folders. -/
theorem listed_eq (disk : Disk) (source : Path) :
    listed disk source = (inOrder disk source).map (runIn source) := by
  have hle : ∀ left ∈ numbered disk source, ∀ right ∈ numbered disk source,
      decide (number left ≤ number right) =
        decide ((runIn source left).1 ≤ (runIn source right).1) := by
    intro left hleft right hright
    apply decide_eq_decide.mpr
    rw [UInt64.le_iff_toNat_le, runIn, runIn, toNat_number hleft, toNat_number hright]
  rw [inOrder, List.map_mergeSort (s := fun left right => decide (left.1 ≤ right.1)) hle]
  unfold listed directories numbered folders
  cases disk.list source with
  | error fault => simp [Except.toOption]
  | ok entries =>
    show List.mergeSort _ _ = List.mergeSort (((entries.filterMap _).filter _).map _) _
    congr 1
    rw [← List.filterMap_eq_map, ← List.filterMap_eq_filter, List.filterMap_filterMap,
      List.filterMap_filterMap]
    congr 1
    apply funext
    rintro ⟨name, contents | files⟩
    · rfl
    · show (id? name).map _ = ((if _ then some name else none).bind fun name => some _)
      rw [map_id?_eq]
      split <;> rfl

theorem directories_eq_listed (h : (disk.list source).isOk = true) :
    directories disk source = .ok (listed disk source) := by
  unfold listed directories
  cases hlist : disk.list source with
  | error fault => simp [hlist, Except.isOk, Except.toBool] at h
  | ok entries => rfl

/-! ## What a refresh has scanned -/

theorem isFile_of_notFound {path : Path} (h : disk.readText path = .error .notFound) :
    disk.isFile path = false := by
  unfold Disk.readText Disk.read at h
  unfold Disk.isFile
  rcases hentry : disk.entry path with fault | contents | entries
  · rfl
  · rw [hentry] at h
    cases contents <;> cases h
  · rfl

theorem isFile_of_readYaml? {path : Path} {value? : Option Value}
    (h : readYaml? disk path = .ok value?) : disk.isFile path = value?.isSome := by
  unfold readYaml? at h
  cases hread : disk.readText path with
  | error fault =>
    rw [hread] at h
    cases fault
    case notFound =>
      cases h
      exact isFile_of_notFound hread
    all_goals cases h
  | ok text =>
    rw [Disk.isFile_of_readText hread]
    rw [hread] at h
    split at h
    · contradiction
    · contradiction
    · split at h <;> cases h <;> rfl

theorem hasMetadata_of_metadataFields? {run : Path} {groups : List String}
    {fields? : Option (List (String × Value))} (h : metadataFields? disk run groups = .ok fields?) :
    (groups.all fun group => disk.isFile (metadata run group)) = fields?.isSome := by
  induction groups generalizing fields? with
  | nil =>
    cases h
    rfl
  | cons group groups ih =>
    obtain ⟨value?, hread, hrest⟩ := bind_eq_ok.mp h
    rw [List.all_cons, isFile_of_readYaml? hread]
    cases value? with
    | none =>
      cases hrest
      rfl
    | some value =>
      obtain ⟨more?, hmore, hpure⟩ := bind_eq_ok.mp hrest
      cases hpure
      rw [ih hmore, Option.isSome_some, Bool.true_and, Option.isSome_map]

/-- A run that is scanned has a document if and only if it has all files of metadata. -/
theorem hasMetadata_of_scan {run : Path} {document? : Option Document}
    (h : scan disk run = .ok document?) : hasMetadata disk run = document?.isSome := by
  obtain ⟨fields?, hfields, hrest⟩ := bind_eq_ok.mp h
  rw [hasMetadata, hasMetadata_of_metadataFields? hfields]
  cases fields? with
  | none =>
    cases hrest
    rfl
  | some fields =>
    obtain ⟨metrics, -, hrest⟩ := bind_eq_ok.mp hrest
    obtain ⟨artifacts, -, hpure⟩ := bind_eq_ok.mp hrest
    cases hpure
    rfl

/-- What is found in a numbered folder, if it can be scanned. -/
def documentIn? (disk : Disk) (source : Path) (name : String) : Option Document :=
  (scan disk (source.join name)).toOption.join

theorem untilError_of_forall {α β : Type} {compute : α → Except Error β} {result : α → β}
    {items : List α} (h : ∀ item ∈ items, compute item = .ok (result item)) :
    untilError compute items = items.map fun item => (item, result item) := by
  induction items with
  | nil => rfl
  | cons item items ih =>
    obtain ⟨hitem, hitems⟩ := List.forall_mem_cons.mp h
    rw [untilError, hitem, ih hitems]
    rfl

/-! ## The field table -/

/-- Of some documents the last with a key gives it its kind. -/
theorem get?_kindsOf_append (documents : List (RunId × Document)) (run : RunId × Document)
    (key : String) :
    (kindsOf (documents ++ [run])).get? key =
      ((run.2.get? key).map (FieldKind.of key)).or ((kindsOf documents).get? key) := by
  rw [kindsOf, List.flatMap_append, SortedMap.get?_ofList_append, List.flatMap_singleton,
    ← SortedMap.mapValues_ofList, SortedMap.ofList_entries, SortedMap.get?_mapValues]
  rfl

theorem exists_of_get?_kindsOf {documents : List (RunId × Document)}
    (hsorted : documents.Pairwise fun first second => first.1 ≤ second.1) {key : String}
    {kind : FieldKind} (hget : (kindsOf documents).get? key = some kind) :
    ∃ run ∈ documents, ∃ value, run.2.get? key = some value ∧ kind = FieldKind.of key value ∧
      ∀ other ∈ documents, key ∈ other.2.keys → other.1 ≤ run.1 := by
  induction documents using List.reverseRecOn with
  | nil => cases hget
  | append_singleton documents last ih =>
    obtain ⟨hbefore, -, hlast⟩ := List.pairwise_append.mp hsorted
    rw [get?_kindsOf_append] at hget
    cases hvalue : last.2.get? key with
    | some value =>
      rw [hvalue] at hget
      refine ⟨last, by simp, value, hvalue, (Option.some.inj hget).symm, ?_⟩
      intro other hother _
      rcases List.mem_append.mp hother with hmem | hmem
      · exact hlast other hmem last List.mem_cons_self
      · rw [List.mem_singleton.mp hmem]
        exact UInt64.le_refl _
    | none =>
      rw [hvalue] at hget
      obtain ⟨run, hrun, value, hfield, hkind, hgreatest⟩ := ih hbefore hget
      refine ⟨run, List.mem_append_left _ hrun, value, hfield, hkind, ?_⟩
      intro other hother hkey
      rcases List.mem_append.mp hother with hmem | hmem
      · exact hgreatest other hmem hkey
      · rw [List.mem_singleton.mp hmem] at hkey
        exact absurd hkey (SortedMap.get?_eq_none_iff.mp hvalue)

theorem mem_keys_kindsOf {documents : List (RunId × Document)} {key : String} :
    key ∈ (kindsOf documents).keys ↔ ∃ run ∈ documents, key ∈ run.2.keys := by
  rw [kindsOf, SortedMap.mem_keys_ofList]
  constructor
  · rintro ⟨kind, hkind⟩
    obtain ⟨run, hrun, hfield⟩ := List.mem_flatMap.mp hkind
    obtain ⟨field, hmem, heq⟩ := List.mem_map.mp hfield
    cases heq
    exact ⟨run, hrun, SortedMap.mem_keys.mpr ⟨field.2, hmem⟩⟩
  · rintro ⟨run, hrun, hkey⟩
    obtain ⟨value, hmem⟩ := SortedMap.mem_keys.mp hkey
    exact ⟨_, List.mem_flatMap.mpr ⟨run, hrun, List.mem_map_of_mem hmem⟩⟩

/-! ## What all folders have -/

section Scanned

variable (hscan : ∀ name ∈ numbered disk source,
  scan disk (source.join name) = .ok (documentIn? disk source name))

include hscan

theorem scanned_iff {document : Document} :
    Scanned disk source name document ↔
      name ∈ inOrder disk source ∧ documentIn? disk source name = some document := by
  constructor
  · intro h
    refine ⟨mem_inOrder.mpr h.numbered, ?_⟩
    exact Except.ok.inj ((hscan name h.numbered).symm.trans h.scan)
  · rintro ⟨hname, hdocument⟩
    have hnumbered := mem_inOrder.mp hname
    exact ⟨hnumbered, hdocument ▸ hscan name hnumbered⟩

theorem scannedIn_eq :
    scannedIn disk source =
      (inOrder disk source).map fun name => (runIn source name, documentIn? disk source name) := by
  have hlisted : ∀ run ∈ listed disk source,
      scan disk run.2 = .ok (scan disk run.2).toOption.join := by
    intro run hrun
    rw [listed_eq] at hrun
    obtain ⟨name, hname, rfl⟩ := List.mem_map.mp hrun
    exact hscan name (mem_inOrder.mp hname)
  rw [scannedIn, untilError_of_forall hlisted, listed_eq, List.map_map]
  rfl

theorem documentsOf_eq :
    documentsOf (scannedIn disk source) = (inOrder disk source).filterMap fun name =>
      (documentIn? disk source name).map (Prod.mk (runIn source name).1) := by
  rw [scannedIn_eq hscan, documentsOf, List.filterMap_map, Function.comp_def]

theorem mem_documentsOf {run : RunId × Document} :
    run ∈ documentsOf (scannedIn disk source) ↔
      ∃ name, Scanned disk source name run.2 ∧ number name = run.1.toNat := by
  rw [documentsOf_eq hscan, List.mem_filterMap]
  refine exists_congr fun name => ?_
  rw [scanned_iff hscan, and_assoc]
  refine and_congr_right fun hname => ?_
  have hnumber := toNat_number (mem_inOrder.mp hname)
  constructor
  · intro h
    obtain ⟨document, hdocument, rfl⟩ := Option.map_eq_some_iff.mp h
    exact ⟨hdocument, hnumber.symm⟩
  · rintro ⟨hdocument, hid⟩
    have hrun : (runIn source name).1 = run.1 := UInt64.toNat_inj.mp (hnumber.trans hid)
    rw [hdocument, hrun]
    rfl

theorem mem_documentsOf_of_scanned {document : Document} (h : Scanned disk source name document) :
    ((runIn source name).1, document) ∈ documentsOf (scannedIn disk source) :=
  (mem_documentsOf hscan).mpr ⟨name, h, (toNat_number h.numbered).symm⟩

theorem pairwise_documentsOf :
    (documentsOf (scannedIn disk source)).Pairwise fun first second => first.1 ≤ second.1 := by
  rw [documentsOf_eq hscan, List.pairwise_filterMap]
  refine (pairwise_inOrder disk source).imp_of_mem ?_
  intro first second hfirst hsecond hle run hrun other hother
  obtain ⟨_, -, rfl⟩ := Option.map_eq_some_iff.mp hrun
  obtain ⟨_, -, rfl⟩ := Option.map_eq_some_iff.mp hother
  rwa [UInt64.le_iff_toNat_le, runIn, runIn, toNat_number (mem_inOrder.mp hfirst),
    toNat_number (mem_inOrder.mp hsecond)]

theorem skippedOf_eq :
    skippedOf (scannedIn disk source) =
      ((inOrder disk source).filter fun name => !hasMetadata disk (source.join name)).map
        source.join := by
  rw [scannedIn_eq hscan, skippedOf, List.filterMap_map, ← List.filterMap_eq_map,
    ← List.filterMap_eq_filter, List.filterMap_filterMap]
  refine List.filterMap_congr ?_
  intro name hname
  have hmetadata := hasMetadata_of_scan (hscan name (mem_inOrder.mp hname))
  simp only [Function.comp_apply, Option.guard, hmetadata, runIn]
  cases documentIn? disk source name <;> rfl

/-- A numbered folder has metadata if and only if a document was scanned there. -/
theorem hasMetadata_iff (hname : name ∈ numbered disk source) :
    hasMetadata disk (source.join name) = true ↔ ∃ document, Scanned disk source name document := by
  rw [hasMetadata_of_scan (hscan name hname), Option.isSome_iff_exists]
  refine exists_congr fun document => ?_
  rw [scanned_iff hscan]
  exact (and_iff_right (mem_inOrder.mpr hname)).symm

end Scanned

end Run

namespace Catalog

variable {before after catalog other : Catalog} {now : Timestamp} {disk last : Disk}

/-! ## Scans that start alike -/

/-- Two catalogs have the same contents; their directories and snapshots may be others. -/
structure SameContents (left right : Catalog) : Prop where
  runs : left.store.runs = right.store.runs
  fields : left.store.fields = right.store.fields
  index : left.store.index = right.store.index
  skipped : left.skipped = right.skipped

theorem SameContents.add (h : catalog.SameContents other) (id : RunId) (directory : Path)
    (document? : Option Document) :
    (catalog.add id directory document?).SameContents (other.add id directory document?) := by
  cases document? with
  | none => exact ⟨h.runs, h.fields, h.index, congrArg (· ++ [directory]) h.skipped⟩
  | some document =>
    refine ⟨congrArg (·.insert id document) h.runs, ?_, ?_, h.skipped⟩
    · exact congrArg (document.entries.foldl _) h.fields
    · show Store.indexDocument id document _ = Store.indexDocument id document _
      rw [Store.get?, Store.get?, h.runs, h.index]

/-- Scans that start with the same contents end with the same contents. -/
theorem SameContents.scan (h : catalog.SameContents other) (directories : List (RunId × Path)) :
    (catalog.scan disk directories).2.SameContents (other.scan disk directories).2 := by
  induction directories generalizing catalog other with
  | nil => exact h
  | cons run directories ih =>
    rw [scan_cons, scan_cons]
    cases Run.scan disk run.2 with
    | error error => exact h
    | ok document? => exact ih (h.add run.1 run.2 document?)

theorem sameContents_refresh (hsource : before.source = other.source) (now later : Timestamp) :
    (before.refresh now disk).2.1.SameContents (other.refresh later disk).2.1 := by
  rw [catalog_refresh, catalog_refresh, hsource]
  have hcleared : (before.cleared now).SameContents (other.cleared later) := ⟨rfl, rfl, rfl, rfl⟩
  exact hcleared.scan _

/-! ## What a scan keeps -/

theorem tidy_scan (h : Store.Tidy catalog.store.index) (directories : List (RunId × Path)) :
    Store.Tidy (catalog.scan disk directories).2.store.index := by
  induction directories generalizing catalog with
  | nil => exact h
  | cons run directories ih =>
    rw [scan_cons]
    cases Run.scan disk run.2 with
    | error error => exact h
    | ok document? =>
      cases document? with
      | none => exact ih h
      | some document => exact ih (Store.tidy_insert h run.1 document)

/-- A refresh that succeeds could scan all numbered folders. -/
theorem scan_numbered_of_refresh (h : before.refresh now disk = (.ok (), after, last)) :
    ∀ name ∈ Run.numbered disk before.source,
      Run.scan disk (before.source.join name) = .ok (Run.documentIn? disk before.source name) := by
  intro name hname
  obtain ⟨directories, hdirectories, hscan, -⟩ := scan_of_refresh h
  have hlisted : Run.listed disk before.source = directories := by
    rw [Run.listed, hdirectories]
    rfl
  have hrun : Run.runIn before.source name ∈ directories := by
    rw [← hlisted, Run.listed_eq]
    exact List.mem_map_of_mem (Run.mem_inOrder.mpr hname)
  obtain ⟨document?, hdocument⟩ := exists_of_scan hscan hrun
  have hok := (mem_of_mem_untilError hdocument).2
  have hdocument : Run.documentIn? disk before.source name = document? :=
    congrArg (fun result : Except Error (Option Document) => result.toOption.join) hok
  rw [hdocument]
  exact hok

/-! ## Completeness -/

/-- A catalog is a complete scan of its directory. -/
structure Complete (disk : Disk) (catalog : Catalog) : Prop where
  /-- The runs are the numbered folders with metadata. -/
  ids (id : RunId) : (∃ document, catalog.store.runs.get? id = some document) ↔
    ∃ name ∈ Run.numbered disk catalog.source, Run.number name = id.toNat ∧
      Run.hasMetadata disk (catalog.source.join name) = true
  /-- Each document is what was scanned in such a folder. -/
  documents (id : RunId) (document : Document) (hget : catalog.store.runs.get? id = some document) :
    ∃ name, Run.Scanned disk catalog.source name document ∧ Run.number name = id.toNat
  /-- All of these folders have been scanned. -/
  scanned (name : String) (hname : name ∈ Run.numbered disk catalog.source)
    (hmetadata : Run.hasMetadata disk (catalog.source.join name) = true) :
    ∃ document, Run.Scanned disk catalog.source name document
  /-- The other numbered folders are the skipped ones, in the order of their numbers. -/
  skipped : ∃ names : List String,
    names.Perm ((Run.numbered disk catalog.source).filter fun name =>
      !Run.hasMetadata disk (catalog.source.join name)) ∧
    (names.Pairwise fun left right => Run.number left ≤ Run.number right) ∧
    catalog.skipped = names.map catalog.source.join
  /-- The field table has the keys of all that was scanned. -/
  keys (key : String) : key ∈ catalog.store.fields.keys ↔
    ∃ name document, Run.Scanned disk catalog.source name document ∧ key ∈ document.keys
  /-- A key has the kind that it has in a run of the greatest number. -/
  kinds (key : String) (kind : FieldKind) (hget : catalog.store.fields.get? key = some kind) :
    ∃ name document value, Run.Scanned disk catalog.source name document ∧
      document.get? key = some value ∧ kind = FieldKind.of key value ∧
      ∀ another found, Run.Scanned disk catalog.source another found → key ∈ found.keys →
        Run.number another ≤ Run.number name
  /-- The index has what the documents have. -/
  index : catalog.store.ExactIndex
  /-- Nothing but the directory has a part in it. -/
  alone (other : Catalog) (hother : Fresh disk other) (hsource : other.source = catalog.source) :
    catalog.SameContents other

theorem get?_iff (hexact : catalog.HasExactly (Run.scannedIn disk catalog.source))
    (hscan : ∀ name ∈ Run.numbered disk catalog.source, Run.scan disk (catalog.source.join name) =
      .ok (Run.documentIn? disk catalog.source name)) (id : RunId) :
    (∃ document, catalog.store.runs.get? id = some document) ↔
      ∃ name document, Run.Scanned disk catalog.source name document ∧
        Run.number name = id.toNat := by
  rw [hexact.runs]
  constructor
  · rintro ⟨document, hget⟩
    obtain ⟨name, hscanned⟩ := (Run.mem_documentsOf hscan).mp (SortedMap.mem_of_get?_ofList hget)
    exact ⟨name, document, hscanned⟩
  · rintro ⟨name, document, hscanned⟩
    have hmem : (id, document) ∈ Run.documentsOf (Run.scannedIn disk catalog.source) :=
      (Run.mem_documentsOf hscan).mpr ⟨name, hscanned⟩
    exact SortedMap.exists_get?_ofList (List.mem_map_of_mem hmem)

theorem complete_of_exact (hexact : catalog.HasExactly (Run.scannedIn disk catalog.source))
    (hscan : ∀ name ∈ Run.numbered disk catalog.source, Run.scan disk (catalog.source.join name) =
      .ok (Run.documentIn? disk catalog.source name)) (hindex : catalog.store.ExactIndex)
    (halone : ∀ other, Fresh disk other → other.source = catalog.source →
      catalog.SameContents other) : catalog.Complete disk where
  ids id := by
    rw [get?_iff hexact hscan]
    constructor
    · rintro ⟨name, document, hscanned, hid⟩
      exact ⟨name, hscanned.numbered, hid,
        (Run.hasMetadata_iff hscan hscanned.numbered).mpr ⟨document, hscanned⟩⟩
    · rintro ⟨name, hname, hid, hmetadata⟩
      obtain ⟨document, hscanned⟩ := (Run.hasMetadata_iff hscan hname).mp hmetadata
      exact ⟨name, document, hscanned, hid⟩
  documents id document hget := by
    rw [hexact.runs] at hget
    exact (Run.mem_documentsOf hscan).mp (SortedMap.mem_of_get?_ofList hget)
  scanned name hname := (Run.hasMetadata_iff hscan hname).mp
  skipped := by
    refine ⟨_, ?_, ?_, hexact.skipped.trans (Run.skippedOf_eq hscan)⟩
    · exact (List.mergeSort_perm _ _).filter _
    · exact (Run.pairwise_inOrder disk catalog.source).filter _
  keys key := by
    rw [hexact.fields, Run.mem_keys_kindsOf]
    constructor
    · rintro ⟨run, hrun, hkey⟩
      obtain ⟨name, hscanned, -⟩ := (Run.mem_documentsOf hscan).mp hrun
      exact ⟨name, run.2, hscanned, hkey⟩
    · rintro ⟨name, document, hscanned, hkey⟩
      exact ⟨_, Run.mem_documentsOf_of_scanned hscan hscanned, hkey⟩
  kinds key kind hget := by
    rw [hexact.fields] at hget
    obtain ⟨run, hrun, value, hvalue, hkind, hgreatest⟩ :=
      Run.exists_of_get?_kindsOf (Run.pairwise_documentsOf hscan) hget
    obtain ⟨name, hscanned, hid⟩ := (Run.mem_documentsOf hscan).mp hrun
    refine ⟨name, run.2, value, hscanned, hvalue, hkind, ?_⟩
    intro another found hfound hkey
    have hle := hgreatest _ (Run.mem_documentsOf_of_scanned hscan hfound) hkey
    calc Run.number another = ((Run.runIn catalog.source another).1).toNat :=
          (Run.toNat_number hfound.numbered).symm
      _ ≤ run.1.toNat := UInt64.le_iff_toNat_le.mp hle
      _ = Run.number name := hid.symm
  index := hindex
  alone := halone

theorem complete_of_refresh (h : before.refresh now disk = (.ok (), after, last)) :
    after.Complete disk := by
  have hscan := scan_numbered_of_refresh h
  have hsource := source_refresh before now disk
  obtain ⟨hexact, hindexed⟩ := refresh_spec before now disk
  have htidy : Store.Tidy (before.refresh now disk).2.1.store.index := by
    rw [catalog_refresh]
    exact tidy_scan Store.tidy_empty _
  rw [h] at hsource hexact hindexed htidy
  rw [← hsource] at hscan hexact
  apply complete_of_exact hexact hscan (Store.exactIndex_of_indexed hindexed htidy)
  intro other hother hsame
  obtain ⟨first, later, final, hrefresh, hfirst⟩ := hother.exists_refresh
  have hcontents : (before.refresh now disk).2.1.SameContents (first.refresh later disk).2.1 :=
    sameContents_refresh (hsource.symm.trans (hsame.symm.trans hfirst)) now later
  rwa [h, hrefresh] at hcontents

/-- **Building and refreshing make a complete scan**, whatever there was before. -/
theorem complete_of_renewed (h : before.refresh now disk = (.ok (), after, last) ∨
      build before.source before.snapshot now disk = (.ok after, last)) :
    after.source = before.source ∧ after.store.header.createdAt = now ∧ after.Complete disk := by
  obtain ⟨first, hsource, hrefresh⟩ : ∃ first : Catalog, first.source = before.source ∧
      first.refresh now disk = (.ok (), after, last) := by
    rcases h with hrefresh | hbuild
    · exact ⟨before, rfl, hrefresh⟩
    · exact ⟨⟨before.source, before.snapshot, Store.empty before.source now, []⟩, rfl,
        build_eq_ok.mp hbuild⟩
  have hafter := source_refresh first now disk
  have hheader : (first.refresh now disk).2.1.store.header = (first.cleared now).store.header := by
    rw [catalog_refresh, header_scan]
  rw [hrefresh] at hafter hheader
  exact ⟨hafter.trans hsource, congrArg Header.createdAt hheader, complete_of_refresh hrefresh⟩

/-- A disk with three folders in `/work/runs` whose names are made of digits: one is a run, one
is empty, and one has a number that no run can have. -/
def threeFolders : Disk :=
  ⟨⟨"/work"⟩, .folder [("runs", .folder [("1", .folder [("metadata", .folder
    [("config.yaml", .file (.text "seed: 1\n")),
      ("info.yaml", .file (.text "status: COMPLETE\n"))])]), ("3", .folder []),
    ("99999999999999999999", .folder [])])]⟩

/-- A catalog of `/work/runs` from an earlier time, when there were other runs. -/
def outdated : Catalog :=
  ⟨⟨"/work/runs"⟩, ⟨"/work/runs.json"⟩, (Store.empty ⟨"/work/runs"⟩ .epoch).insert 9 .empty,
    [⟨"/work/runs/2"⟩]⟩

theorem directories_threeFolders :
    Run.directories threeFolders ⟨"/work/runs"⟩ =
      .ok [(1, ⟨"/work/runs/1"⟩), (3, ⟨"/work/runs/3"⟩)] := by
  have hlist : (threeFolders.list ⟨"/work/runs"⟩).isOk = true := by decide +kernel
  have hnumbered : Run.numbered threeFolders ⟨"/work/runs"⟩ = ["1", "3"] := by decide +kernel
  have horder : Run.inOrder threeFolders ⟨"/work/runs"⟩ = ["1", "3"] := by
    rw [Run.inOrder, hnumbered]
    exact List.mergeSort_of_pairwise (by decide)
  rw [Run.directories_eq_listed hlist, Run.listed_eq, horder]
  rfl

/-- Of three folders one is indexed and one reported, and nothing is left of an earlier time. -/
theorem refresh_threeFolders :
    ∃ after last, outdated.refresh .epoch threeFolders = (.ok (), after, last) ∧
      after.all.map Prod.fst = [1] ∧ after.skipped = [⟨"/work/runs/3"⟩] := by
  have hseen : (fun renewed : Except Error Unit × Catalog × Disk =>
      (renewed.1.isOk, renewed.2.1.all.map Prod.fst, renewed.2.1.skipped))
        (outdated.refresh .epoch threeFolders) = (true, [1], [⟨"/work/runs/3"⟩]) := by
    rw [refresh_of_listed .epoch directories_threeFolders]
    decide +kernel
  generalize outdated.refresh .epoch threeFolders = renewed at hseen
  obtain ⟨error | ⟨⟩, after, last⟩ := renewed
  · cases congrArg Prod.fst hseen
  · have hparts := congrArg Prod.snd hseen
    exact ⟨after, last, rfl, congrArg Prod.fst hparts, congrArg Prod.snd hparts⟩

theorem complete_of_threeFolders :
    ∃ after last, outdated.refresh .epoch threeFolders = (.ok (), after, last) ∧
      after.all.map Prod.fst = [1] ∧ after.Complete threeFolders := by
  obtain ⟨after, last, hrefresh, hall, -⟩ := refresh_threeFolders
  exact ⟨after, last, hrefresh, hall, (complete_of_renewed (.inl hrefresh)).2.2⟩

/-- A folder whose name is made of digits may be neither indexed nor reported. -/
theorem not_forall_skipped_of_digits :
    ¬ ∀ (disk : Disk) (catalog : Catalog), Fresh disk catalog →
      ∀ name ∈ Run.folders disk catalog.source, Run.isNumeral name = true →
        Run.hasMetadata disk (catalog.source.join name) = false →
        catalog.source.join name ∈ catalog.skipped := by
  intro hall
  obtain ⟨after, last, hrefresh, -, hskipped⟩ := refresh_threeFolders
  have hsource := source_refresh outdated .epoch threeFolders
  rw [hrefresh] at hsource
  have hfolder : "99999999999999999999" ∈ Run.folders threeFolders outdated.source := by
    decide +kernel
  have hmetadata : Run.hasMetadata threeFolders (outdated.source.join "99999999999999999999") =
      false := by
    decide +kernel
  have hmem := hall threeFolders after (.refresh hrefresh) "99999999999999999999"
    (hsource ▸ hfolder) (by decide) (hsource ▸ hmetadata)
  rw [hskipped, hsource] at hmem
  exact absurd hmem (by decide +kernel)

end Catalog

end Logbook
