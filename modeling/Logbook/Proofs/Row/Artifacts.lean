import Logbook.Proofs.Disk.Files
import Logbook.Proofs.Path
import Logbook.Proofs.Row.Series

/-!
# Groups of artifacts

A run lists its artifacts by type and directory.  The scan of the run strips the dots at the
start of a directory key and enters a marker under `artifact.<type>.<directory>`, a row takes
the type from that key again, and the loader of the type looks the rest of the key up in the
list.  A listed group is found if and only if its type has no dot and no later key of the type
stands for the same directory with other names (`Row.resolves_iff`).

## Strategy

Whatever the type is, the row looks for the artifacts of its first segment
(`Key.artifactType?_artifacts_eq`).  A type with a dot has to be another one, and nothing says
how to read that.  For a type without a dot the loader strips from the key what the scan put
in front of the directory, and there the list has the names under the last of the keys that
stand for the directory (`Run.namesOf`), since of equal keys the last counts.
-/

namespace Logbook

/-! ## Directories -/

/-- The segments of a directory key.  A dot at the start or a doubled one makes none. -/
def Listing.segments (key : String) : List String := (Path.pieces '.' key).filter (· != "")

/-- Dots at the start of a directory key do not change its segments. -/
theorem Listing.segments_directory (key : String) : segments (directory key) = segments key := by
  have hdrop : ∀ chars : List Char,
      ((Path.splitChars '.' (chars.dropWhile (· == '.'))).map String.ofList).filter (· != "") =
        ((Path.splitChars '.' chars).map String.ofList).filter (· != "") := by
    intro chars
    induction chars with
    | nil => rfl
    | cons c chars ih =>
      by_cases hc : c = '.'
      · subst hc
        rw [List.dropWhile_cons, if_pos (beq_self_eq_true '.'), ih]
        obtain ⟨piece, pieces, hrest, hcons⟩ := Path.splitChars_cons '.' '.' chars
        rw [hcons, if_pos (beq_self_eq_true '.'), hrest]
        rfl
      · rw [List.dropWhile_cons, if_neg (by simpa using hc)]
  unfold segments Path.pieces directory
  rw [String.toList_ofList]
  exact hdrop key.toList

/-- Of the keys that stand for one directory the last counts. -/
theorem Listing.get?_ofList_directories (listed : List (String × List String)) (found : String) :
    (SortedMap.ofList (listed.map fun entry => (directory entry.1, entry.2))).get? found =
      (listed.reverse.find? fun entry => directory entry.1 = found).map Prod.snd := by
  rw [SortedMap.get?_ofList, ← List.map_reverse, List.find?_map, Option.map_map]
  rfl

theorem Listing.groupOf_eq_ok {disk : Disk} {run : Path} {kind key text : String} {codec : Codec}
    {listing : Listing} {directories : SortedMap String (List String)} {names : List String}
    (htext : disk.readText (Run.artifactRegistry run) = .ok text)
    (hlisting : Listing.ofText text = .ok listing) (hkind : listing.get? kind = some directories)
    (hnames : directories.get? (Key.artifactDirectory kind key) = some names) :
    Listing.groupOf disk run kind (some codec) key =
      .ok (group run kind codec (Key.artifactDirectory kind key) names) := by
  unfold groupOf
  dsimp only
  rw [htext]
  dsimp only
  rw [hlisting, Outcome.ok_bind, hkind, Option.bind_some, hnames]

namespace Run

/-- The path of an artifact: the folder of artifacts, the type, the segments of the directory
and the name, one below the other. -/
def artifactPath (run : Path) (kind key name : String) : Path :=
  ("artifacts" :: kind :: Listing.segments key ++ [name]).foldl Path.join run

theorem artifactPath_eq (run : Path) (kind key name : String) :
    artifactPath run kind key name =
      (Listing.folder run kind (Listing.directory key)).join name := by
  have hfolder : Listing.folder run kind (Listing.directory key) =
      (Listing.segments (Listing.directory key)).foldl Path.join (artifactsOf run kind) := rfl
  rw [hfolder, Listing.segments_directory, artifactPath, List.cons_append, List.cons_append,
    List.foldl_cons, List.foldl_cons, List.foldl_append]
  rfl

/-! ## The list of a run -/

/-- The directories that a run lists for a type of artifacts, each with its names, as they
stand in the file. -/
def listedDirectories (disk : Disk) (run : Path) (kind : String) : List (String × List String) :=
  match ((disk.readText (artifactRegistry run)).toOption.bind Yaml.read).map Value.ofYaml with
  | some (.map kinds) =>
      match (SortedMap.ofList kinds).get? kind with
      | some (.map directories) => directories.map fun entry => (entry.1, Listing.names entry.2)
      | _ => []
  | _ => []

/-- The names that a run lists under the last of the keys that stand for a directory. -/
def namesOf (disk : Disk) (run : Path) (kind directory : String) : List String :=
  ((listedDirectories disk run kind).reverse.find? fun entry =>
    Listing.directory entry.1 = directory).elim [] Prod.snd

variable {disk : Disk} {run : Path} {document : Document} {kind key : String}
  {names : List String}

/-- What is listed comes from a file that can be read. -/
theorem exists_listing_of_listed (hlisted : (key, names) ∈ listedDirectories disk run kind) :
    ∃ text listing directories, disk.readText (artifactRegistry run) = .ok text ∧
      Listing.ofText text = .ok listing ∧ listing.get? kind = some directories ∧
      directories = SortedMap.ofList ((listedDirectories disk run kind).map fun entry =>
        (Listing.directory entry.1, entry.2)) := by
  unfold listedDirectories at hlisted ⊢
  split at hlisted
  · next kinds hkinds =>
    obtain ⟨tree, htree, hvalue⟩ := Option.map_eq_some_iff.mp hkinds
    obtain ⟨text, htext, hread⟩ := Option.bind_eq_some_iff.mp htree
    refine ⟨text, Listing.ofValue (.map kinds), _, Outcome.eq_ok_of_toOption htext, ?_, ?_, rfl⟩
    · rw [Listing.ofText, hread, ← hvalue]
    · split at hlisted
      · next entries hentries =>
        have hkind : (Listing.ofValue (.map kinds)).get? kind =
            ((SortedMap.ofList kinds).get? kind).map Listing.directories := by
          rw [Listing.ofValue, ← SortedMap.mapValues_ofList fun _ => Listing.directories,
            SortedMap.get?_mapValues]
        rw [hkind, hentries]
        simp only [Option.map_some, Listing.directories, List.map_map]
        rfl
      · cases hlisted
  · cases hlisted

/-- A listed directory has the names under the last key that stands for it. -/
theorem get?_of_listed (hlisted : (key, names) ∈ listedDirectories disk run kind) :
    (SortedMap.ofList ((listedDirectories disk run kind).map fun entry =>
        (Listing.directory entry.1, entry.2))).get? (Listing.directory key) =
      some (namesOf disk run kind (Listing.directory key)) := by
  rw [Listing.get?_ofList_directories, namesOf]
  cases hfind : (listedDirectories disk run kind).reverse.find? fun entry =>
      Listing.directory entry.1 = Listing.directory key with
  | none => exact absurd (List.find?_eq_none.mp hfind _ (List.mem_reverse.mpr hlisted)) (by simp)
  | some entry => rfl

theorem mem_artifactMarkers (hlisted : (key, names) ∈ listedDirectories disk run kind)
    {markers : List (String × Value)} (hmarkers : artifactMarkers disk run = .ok markers) :
    (Key.artifacts kind (Listing.directory key), Marker.artifact.value) ∈ markers := by
  obtain ⟨text, listing, directories, htext, hlisting, hkind, hdirectories⟩ :=
    exists_listing_of_listed hlisted
  have hdirectory : Listing.directory key ∈ directories.keys := by
    rw [hdirectories]
    exact SortedMap.mem_keys.mpr ⟨_, SortedMap.mem_of_get? (get?_of_listed hlisted)⟩
  dsimp only [artifactMarkers] at hmarkers
  rw [if_pos (Disk.isFile_of_readText htext), htext] at hmarkers
  obtain ⟨found, hfound, hpure⟩ := Outcome.bind_eq_ok.mp hmarkers
  cases hpure
  obtain rfl : listing = found := Except.ok.inj (hlisting.symm.trans hfound)
  refine List.mem_flatMap.mpr ⟨(kind, directories), SortedMap.mem_of_get? hkind, ?_⟩
  exact List.mem_map.mpr ⟨Listing.directory key, hdirectory, rfl⟩

/-- A listed directory has a marker in the document of the run. -/
theorem get?_scan_of_listed (hscan : scan disk run = .ok (some document))
    (hlisted : (key, names) ∈ listedDirectories disk run kind) :
    document.get? (Key.artifacts kind (Listing.directory key)) = some Marker.artifact.value := by
  obtain ⟨fields?, -, hrest⟩ := Outcome.bind_eq_ok.mp hscan
  cases fields? with
  | none => cases hrest
  | some fields =>
    obtain ⟨metrics, -, hrest⟩ := Outcome.bind_eq_ok.mp hrest
    obtain ⟨artifacts, hartifacts, hpure⟩ := Outcome.bind_eq_ok.mp hrest
    cases hpure
    have hmarker : (SortedMap.ofList artifacts).get?
        (Key.artifacts kind (Listing.directory key)) = some Marker.artifact.value := by
      refine SortedMap.get?_ofList_of_mem (mem_artifactMarkers hlisted hartifacts) ?_
      intro other hother
      obtain ⟨_, _, heq⟩ := exists_of_mem_artifactMarkers hartifacts hother
      exact (Prod.mk.inj heq).2
    rw [SortedMap.get?_ofList_append, hmarker]
    rfl

end Run

/-! ## The row -/

namespace Row

variable {disk : Disk} {run : Path} {document : Document} {kind key : String}
  {names : List String}

/-- A row of a run gives for the key of a directory of artifacts the listed names and no
others, each with the artifact of the type that lies below the run's folder of artifacts,
whenever it is known how artifacts of the type are stored. -/
def Resolves (disk : Disk) (run : Path) (document : Document) (kind key : String)
    (names : List String) : Prop :=
  ∀ (id : RunId) (codecs : Codecs) (shelf : Shelf) (codec : Codec), codecs.get? kind = some codec →
    let made := ofDocument id document run codecs shelf
    ∃ items : SortedMap String Value,
      (made.1.get? (Key.artifacts kind (Listing.directory key)) disk made.2).1 =
        .ok (some (.map items.entries)) ∧
      ∀ item, item ∈ items.entries ↔ ∃ name ∈ names,
        item = (name, .artifact ⟨name, kind, Run.artifactPath run kind key name, codec⟩)

/-- The key of a directory is looked up among the artifacts of the first segment of its
type. -/
theorem get?_of_listed (hscan : Run.scan disk run = .ok (some document))
    (hlisted : (key, names) ∈ Run.listedDirectories disk run kind) (id : RunId) (codecs : Codecs)
    (shelf : Shelf) :
    let made := ofDocument id document run codecs shelf
    (made.1.get? (Key.artifacts kind (Listing.directory key)) disk made.2).1 =
      (Listing.groupOf disk run (Key.logName kind) (codecs.get? (Key.logName kind))
        (Key.artifacts kind (Listing.directory key))).map some := by
  have horigin : Origin.of (Key.artifacts kind (Listing.directory key)) Marker.artifact.value =
      .artifacts (Key.logName kind) := by
    unfold Origin.of
    rw [Key.artifactType?_artifacts_eq]
    rfl
  refine (get?_ofDocument disk id document run codecs shelf _).trans ?_
  rw [Document.readKey, Run.get?_scan_of_listed hscan hlisted]
  show (Document.readField _ _ _ _ _ >>= _) = _
  rw [Document.readField, horigin, Origin.read]
  cases Listing.groupOf disk run (Key.logName kind) (codecs.get? (Key.logName kind))
    (Key.artifacts kind (Listing.directory key)) <;> rfl

/-- What is in the group of a directory without a dot in its type. -/
theorem exists_group_of_undotted (hscan : Run.scan disk run = .ok (some document))
    (hlisted : (key, names) ∈ Run.listedDirectories disk run kind) (hdot : '.' ∉ kind.toList)
    (id : RunId) {codecs : Codecs} (shelf : Shelf) {codec : Codec}
    (hcodec : codecs.get? kind = some codec) :
    let made := ofDocument id document run codecs shelf
    ∃ items : SortedMap String Value,
      (made.1.get? (Key.artifacts kind (Listing.directory key)) disk made.2).1 =
        .ok (some (.map items.entries)) ∧
      ∀ item, item ∈ items.entries ↔ ∃ name ∈ Run.namesOf disk run kind (Listing.directory key),
        item = (name, .artifact ⟨name, kind, Run.artifactPath run kind key name, codec⟩) := by
  intro made
  let artifact (name : String) : Value :=
    .artifact ⟨name, kind, Run.artifactPath run kind key name, codec⟩
  let entries := (Run.namesOf disk run kind (Listing.directory key)).map fun name =>
    (name, artifact name)
  obtain ⟨text, listing, directories, htext, hlisting, hkind, hdirectories⟩ :=
    Run.exists_listing_of_listed hlisted
  have hgroup : Listing.groupOf disk run kind (some codec)
      (Key.artifacts kind (Listing.directory key)) =
        .ok (.map (SortedMap.ofList entries).entries) := by
    have hnames := Run.get?_of_listed hlisted
    rw [← hdirectories, ← Key.artifactDirectory_artifacts kind (Listing.directory key)] at hnames
    rw [Listing.groupOf_eq_ok htext hlisting hkind hnames, Key.artifactDirectory_artifacts,
      Listing.group]
    simp only [← Run.artifactPath_eq]
    rfl
  refine ⟨SortedMap.ofList entries, ?get, fun item => ⟨fun hitem => ?mem, ?entry⟩⟩
  case get =>
    refine (get?_of_listed hscan hlisted id codecs shelf).trans ?_
    rw [Key.logName_eq_self_iff.mpr hdot, hcodec, hgroup]
    rfl
  case mem =>
    obtain ⟨name, hname, rfl⟩ := List.mem_map.mp (SortedMap.mem_of_mem_ofList hitem)
    exact ⟨name, hname, rfl⟩
  case entry =>
    rintro ⟨name, hname, rfl⟩
    refine SortedMap.mem_of_get? (SortedMap.get?_ofList_of_mem ?_ fun other hother => ?_)
    · exact List.mem_map.mpr ⟨name, hname, rfl⟩
    · obtain ⟨_, _, heq⟩ := List.mem_map.mp hother
      obtain ⟨rfl, rfl⟩ := Prod.mk.inj heq
      rfl

/-- A type with a dot is not found, if nothing but it can be read. -/
theorem undotted_of_resolves (hscan : Run.scan disk run = .ok (some document))
    (hlisted : (key, names) ∈ Run.listedDirectories disk run kind)
    (h : Resolves disk run document kind key names) : '.' ∉ kind.toList := by
  by_contra hdot
  let codecs : Codecs := SortedMap.empty.insert kind .text
  have hcodec : codecs.get? kind = some .text := SortedMap.get?_insert_self _ _ _
  have hother : codecs.get? (Key.logName kind) = none := by
    rw [SortedMap.get?_insert, if_neg (mt Key.logName_eq_self_iff.mp (not_not.mpr hdot))]
    rfl
  obtain ⟨items, hget, -⟩ := h 0 codecs {} .text hcodec
  have hmissing := get?_of_listed hscan hlisted 0 codecs {}
  rw [hother] at hmissing
  cases hget.symm.trans hmissing

theorem mem_namesOf_of_resolves (hscan : Run.scan disk run = .ok (some document))
    (hlisted : (key, names) ∈ Run.listedDirectories disk run kind)
    (h : Resolves disk run document kind key names) (name : String) :
    name ∈ Run.namesOf disk run kind (Listing.directory key) ↔ name ∈ names := by
  let codecs : Codecs := SortedMap.empty.insert kind .text
  have hcodec : codecs.get? kind = some .text := SortedMap.get?_insert_self _ _ _
  obtain ⟨items, hget, hitems⟩ := h 0 codecs {} .text hcodec
  obtain ⟨others, hother, hothers⟩ := exists_group_of_undotted hscan hlisted
    (undotted_of_resolves hscan hlisted h) 0 {} hcodec
  have hsame : items.entries = others.entries :=
    Value.map.inj (Option.some.inj (Except.ok.inj (hget.symm.trans hother)))
  rw [← hsame] at hothers
  constructor
  · intro hname
    obtain ⟨_, hmem, heq⟩ := (hitems _).mp ((hothers _).mpr ⟨name, hname, rfl⟩)
    rwa [(Prod.mk.inj heq).1]
  · intro hname
    obtain ⟨_, hmem, heq⟩ := (hothers _).mp ((hitems _).mpr ⟨name, hname, rfl⟩)
    rwa [(Prod.mk.inj heq).1]

/-- **A listed group of artifacts resolves if and only if** its type has no dot and the last
of the keys that stand for its directory has the same names. -/
theorem resolves_iff (hscan : Run.scan disk run = .ok (some document))
    (hlisted : (key, names) ∈ Run.listedDirectories disk run kind) :
    Resolves disk run document kind key names ↔ '.' ∉ kind.toList ∧
      ∀ name, name ∈ Run.namesOf disk run kind (Listing.directory key) ↔ name ∈ names := by
  constructor
  · intro h
    exact ⟨undotted_of_resolves hscan hlisted h, mem_namesOf_of_resolves hscan hlisted h⟩
  · rintro ⟨hdot, hnames⟩ id codecs shelf codec hcodec
    obtain ⟨items, hget, hitems⟩ := exists_group_of_undotted hscan hlisted hdot id shelf hcodec
    refine ⟨items, hget, fun item => (hitems item).trans (exists_congr fun name => ?_)⟩
    rw [hnames name]

/-- The disk of one run with a list of artifacts. -/
def oneList (text : String) : Disk :=
  ⟨⟨"/1"⟩, .folder [
    ("metadata", .folder [("config.yaml", .file (.text "")), ("info.yaml", .file (.text ""))]),
    ("artifacts", .folder [(".keys", .folder [("artifacts.yaml", .file (.text text))])])]⟩

theorem exists_scan_of_isSome (disk : Disk) (run : Path)
    (h : (Run.scan disk run).toOption.join.isSome = true) :
    ∃ document, Run.scan disk run = .ok (some document) := by
  obtain ⟨document, hdocument⟩ := Option.isSome_iff_exists.mp h
  exact ⟨document, Outcome.eq_ok_of_toOption (Option.join_eq_some_iff.mp hdocument)⟩

/-- A directory two levels down, with a list of names, next to one with a map of names. -/
theorem resolves_of_two_levels :
    let disk := oneList "text:\n  \"\":\n    note.txt: 0\n  .plots.final: [a.txt, b.txt]\n"
    ∃ document, Run.scan disk ⟨"/1"⟩ = .ok (some document) ∧
      (".plots.final", ["a.txt", "b.txt"]) ∈ Run.listedDirectories disk ⟨"/1"⟩ "text" ∧
      Run.artifactPath ⟨"/1"⟩ "text" ".plots.final" "b.txt" =
        ⟨"/1/artifacts/text/plots/final/b.txt"⟩ ∧
      Resolves disk ⟨"/1"⟩ document "text" ".plots.final" ["a.txt", "b.txt"] := by
  intro disk
  obtain ⟨document, hscan⟩ := exists_scan_of_isSome disk ⟨"/1"⟩ (by decide +kernel)
  have hlisted : (".plots.final", ["a.txt", "b.txt"]) ∈
      Run.listedDirectories disk ⟨"/1"⟩ "text" := by decide +kernel
  have hnames : Run.namesOf disk ⟨"/1"⟩ "text" (Listing.directory ".plots.final") =
      ["a.txt", "b.txt"] := by decide +kernel
  refine ⟨document, hscan, hlisted, by decide +kernel, ?_⟩
  refine (resolves_iff hscan hlisted).mpr ⟨by decide, fun name => ?_⟩
  rw [hnames]

/-- A run lists names in a directory of a type, and its row does not give them. -/
def Unresolved (kind key : String) : Prop :=
  ∃ disk run document names, Run.scan disk run = .ok (some document) ∧
    (key, names) ∈ Run.listedDirectories disk run kind ∧
    ¬ Resolves disk run document kind key names

/-- A type with a dot is not found, and of two keys that differ in dots at the start only the
names of one are found. -/
theorem unresolved_of_dots : Unresolved "a.b" "" ∧ Unresolved "text" ".plots" := by
  constructor
  · let disk := oneList "a.b:\n  \"\":\n    x.txt: 0\n"
    obtain ⟨document, hscan⟩ := exists_scan_of_isSome disk ⟨"/1"⟩ (by decide +kernel)
    have hlisted : ("", ["x.txt"]) ∈ Run.listedDirectories disk ⟨"/1"⟩ "a.b" := by decide +kernel
    refine ⟨disk, ⟨"/1"⟩, document, ["x.txt"], hscan, hlisted, fun h => ?_⟩
    exact undotted_of_resolves hscan hlisted h (by decide)
  · let disk := oneList "text:\n  .plots: [a.txt]\n  plots: [b.txt]\n"
    obtain ⟨document, hscan⟩ := exists_scan_of_isSome disk ⟨"/1"⟩ (by decide +kernel)
    have hlisted : (".plots", ["a.txt"]) ∈ Run.listedDirectories disk ⟨"/1"⟩ "text" := by
      decide +kernel
    have hnames : Run.namesOf disk ⟨"/1"⟩ "text" (Listing.directory ".plots") = ["b.txt"] := by
      decide +kernel
    refine ⟨disk, ⟨"/1"⟩, document, ["a.txt"], hscan, hlisted, fun h => ?_⟩
    have hfound := (mem_namesOf_of_resolves hscan hlisted h "a.txt").mpr List.mem_cons_self
    rw [hnames] at hfound
    exact absurd hfound (by decide)

end Row

end Logbook
