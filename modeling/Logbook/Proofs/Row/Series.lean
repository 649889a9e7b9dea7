import Logbook.Proofs.Row.History
import Logbook.Proofs.Run.Scan

/-!
# Fields of metric logs

A run lists the fields of each of its metric logs in a file of the log's name.  The scan of
the run enters a marker for each of them under a dotted key, a row that is made from the
document takes the key apart to find the log, and the reader of the log puts the key together
again.  The three agree if the key leads to the log (`Key.NamesLog`), and then the field is the
list of its values over the lines of its own log (`Row.readsLog_of_registered`).

## Strategy

Of the entries with one key in a document the last counts.  Markers of metrics stand behind
metadata, so only a marker of artifacts could take the place of one, and its key leads to no
log.  That a key with the marker is read from the log that it names is then a matter of the
key alone (`Origin.of_metric_eq_log_iff`).
-/

namespace Logbook

/-! ## Keys that lead to a log -/

/-- The key of a field leads to the log: the name of the log has no dot and is not that of a
group of metadata, and the key is none of artifacts. -/
structure Key.NamesLog (log field : String) : Prop where
  undotted : '.' ∉ log.toList
  notMetadata : log ∉ Run.metadataGroups
  notArtifacts : log = "artifact" → '.' ∉ field.toList

theorem Origin.of_metric_eq_log_iff {log field : String} :
    Origin.of (Key.metric log field) Marker.metric.value = .log log ↔ Key.NamesLog log field := by
  have hof : Origin.of (Key.metric log field) Marker.metric.value = .log log ↔
      Key.artifactType? (Key.metric log field) = none ∧
        Key.isSearchable (Key.metric log field) = false ∧
        Key.logName (Key.metric log field) = log := by
    unfold Origin.of
    cases Key.artifactType? (Key.metric log field) with
    | none =>
      cases Key.isSearchable (Key.metric log field) <;>
        simp [Marker.value, Value.toText?, Marker.text]
    | some kind => simp [Marker.value, Value.toText?, Marker.text]
  rw [hof, Key.logName_metric]
  constructor
  · rintro ⟨htype, hsearchable, hdot⟩
    refine ⟨hdot, fun hgroup => ?_, (Key.artifactType?_metric hdot).mp htype⟩
    rw [(Key.isSearchable_metric hdot).mpr hgroup] at hsearchable
    cases hsearchable
  · rintro ⟨hdot, hgroup, hartifacts⟩
    refine ⟨(Key.artifactType?_metric hdot).mpr hartifacts, ?_, hdot⟩
    exact Bool.eq_false_iff.mpr (mt (Key.isSearchable_metric hdot).mp hgroup)

/-- What a log has for the key of a field. -/
theorem MetricLog.seriesOf_metric {disk : Disk} {path : Path} {log field : String}
    {contents : Contents} {lines : List Document} (hread : disk.read path = .ok contents)
    (hlines : fieldsOf path contents = .ok lines) :
    seriesOf disk path log (Key.metric log field) =
      if (series lines field).isEmpty then .error (.absentMetric (Key.metric log field) path)
      else .ok (.list (series lines field)) := by
  have hvalues : valuesOf log (Key.metric log field) lines = series lines field := by
    rw [valuesOf, Key.metric, Key.after?_append]
    rfl
  rw [seriesOf, hread, ← hvalues]
  show (fieldsOf path contents >>= _) = _
  rw [hlines]
  rfl

namespace Run

open Outcome

variable {disk : Disk} {run : Path} {document : Document} {log field : String}

/-- The names of the files in which a run lists its metric logs. -/
def registryFiles (disk : Disk) (run : Path) : List String :=
  ((disk.list (metricKeys run)).toOption.getD []).map Prod.fst

/-- The fields that a run lists for a metric log. -/
def listedFields (disk : Disk) (run : Path) (log : String) : List String :=
  match readYaml? disk ((metricKeys run).join (log ++ ".yaml")) with
  | .ok (some (.map entries)) => entries.map Prod.fst
  | _ => []

/-- A run lists a field for a metric log. -/
structure Registers (disk : Disk) (run : Path) (log field : String) : Prop where
  named : log ≠ ""
  file : log ++ ".yaml" ∈ registryFiles disk run
  field : field ∈ listedFields disk run log

instance : Decidable (Registers disk run log field) :=
  decidable_of_iff
    (log ≠ "" ∧ log ++ ".yaml" ∈ registryFiles disk run ∧ field ∈ listedFields disk run log)
    ⟨fun ⟨named, file, field⟩ => ⟨named, file, field⟩, fun h => ⟨h.named, h.file, h.field⟩⟩

/-! ## The scan -/

theorem logOfFile?_append (hlog : log ≠ "") : logOfFile? (log ++ ".yaml") = some log := by
  have hlength : (log ++ ".yaml").length - ".yaml".length = log.toList.length := by
    rw [String.length_append, Nat.add_sub_cancel, String.length_toList]
  have hne : log.toList.isEmpty = false := by simpa using hlog
  unfold logOfFile?
  rw [hlength, String.toList_append, List.take_left]
  simp [hne]

theorem mem_listedLogs (h : Registers disk run log field) : log ∈ listedLogs disk run := by
  have hfile := h.file
  have hlog := logOfFile?_append h.named
  unfold registryFiles at hfile
  unfold listedLogs
  cases hlist : disk.list (metricKeys run) with
  | error fault =>
    rw [hlist] at hfile
    cases hfile
  | ok entries =>
    rw [hlist] at hfile
    refine List.mem_filterMap.mpr ⟨log ++ ".yaml", ?_, hlog⟩
    rw [List.mem_mergeSort, List.mem_filter]
    exact ⟨hfile, by rw [hlog]; rfl⟩

theorem mem_metricMarkers {markers : List (String × Value)}
    (hmarkers : metricMarkers disk run = .ok markers) (h : Registers disk run log field) :
    (Key.metric log field, Marker.metric.value) ∈ markers := by
  obtain ⟨groups, hgroups, hpure⟩ := bind_eq_ok.mp hmarkers
  cases hpure
  obtain ⟨group, hgroup, hlog⟩ := exists_mem_of_mapM hgroups (mem_listedLogs h)
  refine List.mem_flatten.mpr ⟨group, hgroup, ?_⟩
  have hfield := h.field
  unfold listedFields at hfield
  unfold markersOfLog at hlog
  split at hfield
  · next entries hread =>
    rw [hread] at hlog
    cases hlog
    obtain ⟨entry, hentry, rfl⟩ := List.mem_map.mp hfield
    exact List.mem_map.mpr ⟨entry, hentry, rfl⟩
  · cases hfield

/-- A field that a run lists has a marker in the document of the run. -/
theorem get?_scan_of_registered (hscan : scan disk run = .ok (some document))
    (h : Registers disk run log field) (hnames : Key.NamesLog log field) :
    document.get? (Key.metric log field) = some Marker.metric.value := by
  obtain ⟨fields?, -, hrest⟩ := bind_eq_ok.mp hscan
  cases fields? with
  | none => cases hrest
  | some fields =>
    obtain ⟨metrics, hmetrics, hrest⟩ := bind_eq_ok.mp hrest
    obtain ⟨artifacts, hartifacts, hpure⟩ := bind_eq_ok.mp hrest
    cases hpure
    have hmetric : (SortedMap.ofList metrics).get? (Key.metric log field) =
        some Marker.metric.value :=
      SortedMap.get?_ofList_of_mem (mem_metricMarkers hmetrics h) fun other hother =>
        value_of_mem_metricMarkers hmetrics hother
    have hartifact : (SortedMap.ofList artifacts).get? (Key.metric log field) = none := by
      refine SortedMap.get?_eq_none_iff.mpr fun hkey => ?_
      obtain ⟨value, hvalue⟩ := SortedMap.mem_keys_ofList.mp hkey
      obtain ⟨kind, directory, heq⟩ := exists_of_mem_artifactMarkers hartifacts hvalue
      refine Key.artifactType?_artifacts kind directory ?_
      rw [← (Prod.mk.inj heq).1]
      exact (Key.artifactType?_metric hnames.undotted).mpr hnames.notArtifacts
    rw [SortedMap.get?_ofList_append, SortedMap.get?_ofList_append, hartifact, hmetric]
    rfl

end Run

/-! ## The row -/

namespace Row

open Outcome

variable {disk : Disk} {run : Path} {document : Document} {log field : String}

/-- A row of a run gives for the key of a field what the log has: the values of the field over
the lines, in order, or that the field is missing if there is no file or no line has it. -/
structure ReadsLog (disk : Disk) (run : Path) (document : Document) (log field : String) :
    Prop where
  series (id : RunId) (codecs : Codecs) (shelf : Shelf) {contents : Contents}
    {lines : List Document} (hread : disk.read (Run.metricLog run log) = .ok contents)
    (hlines : MetricLog.fieldsOf (Run.metricLog run log) contents = .ok lines)
    (hsome : MetricLog.series lines field ≠ []) :
    let made := ofDocument id document run codecs shelf
    (made.1.get? (Key.metric log field) disk made.2).1 =
      .ok (some (.list (MetricLog.series lines field)))
  absent (id : RunId) (codecs : Codecs) (shelf : Shelf) {contents : Contents}
    {lines : List Document} (hread : disk.read (Run.metricLog run log) = .ok contents)
    (hlines : MetricLog.fieldsOf (Run.metricLog run log) contents = .ok lines)
    (hnone : MetricLog.series lines field = []) :
    let made := ofDocument id document run codecs shelf
    (made.1.get? (Key.metric log field) disk made.2).1 =
      .error (.absentMetric (Key.metric log field) (Run.metricLog run log))
  unwritten (id : RunId) (codecs : Codecs) (shelf : Shelf)
    (hread : disk.read (Run.metricLog run log) = .error .notFound) :
    let made := ofDocument id document run codecs shelf
    (made.1.get? (Key.metric log field) disk made.2).1 =
      .error (.absentMetric (Key.metric log field) (Run.metricLog run log))

theorem get?_ofDocument (disk : Disk) (id : RunId) (document : Document) (run : Path)
    (codecs : Codecs) (shelf : Shelf) (key : String) :
    let made := ofDocument id document run codecs shelf
    (made.1.get? key disk made.2).1 = document.readKey disk run codecs key := by
  obtain ⟨slot, hslots, hserves⟩ := serves_ofDocument disk id document run codecs shelf
  exact (answers_get? hslots key _ hserves).1

/-- **A field that a run lists for a metric log is read from that log**, as long as the key
leads to the log. -/
theorem readsLog_of_registered (hscan : Run.scan disk run = .ok (some document))
    (h : Run.Registers disk run log field) (hnames : Key.NamesLog log field) :
    ReadsLog disk run document log field := by
  have hanswer (id : RunId) (codecs : Codecs) (shelf : Shelf) :
      let made := ofDocument id document run codecs shelf
      (made.1.get? (Key.metric log field) disk made.2).1 =
        (MetricLog.seriesOf disk (Run.metricLog run log) log (Key.metric log field)).map some := by
    refine (get?_ofDocument disk id document run codecs shelf _).trans ?_
    rw [Document.readKey, Run.get?_scan_of_registered hscan h hnames]
    show (Document.readField _ _ _ _ _ >>= _) = _
    rw [Document.readField, Origin.of_metric_eq_log_iff.mpr hnames, Origin.read]
    cases MetricLog.seriesOf disk (Run.metricLog run log) log (Key.metric log field) <;> rfl
  constructor
  · intro id codecs shelf contents lines hread hlines hsome
    refine (hanswer id codecs shelf).trans ?_
    rw [MetricLog.seriesOf_metric hread hlines, if_neg (by simpa using hsome)]
    rfl
  · intro id codecs shelf contents lines hread hlines hnone
    refine (hanswer id codecs shelf).trans ?_
    rw [MetricLog.seriesOf_metric hread hlines, if_pos (by simpa using hnone)]
    rfl
  · intro id codecs shelf hread
    refine (hanswer id codecs shelf).trans ?_
    rw [MetricLog.seriesOf, hread]
    rfl

/-- The disk of one run with one metric log, where two lines have a field. -/
def oneLog (log field : String) : Disk :=
  ⟨⟨"/1"⟩, .folder [
    ("metadata", .folder [("config.yaml", .file (.text "")), ("info.yaml", .file (.text ""))]),
    ("metrics", .folder [
      (".keys", .folder [(log ++ ".yaml", .file (.text (field ++ ": 0\n")))]),
      (log ++ ".json", .file (.text
        ("\x7b\"" ++ field ++ "\": 1\x7d\n\n\x7b\"" ++ field ++ "\": 2.5\x7d\n")))])]⟩

theorem readsLog_of_two_lines :
    ∃ document values, Run.scan (oneLog "train" "loss") ⟨"/1"⟩ = .ok (some document) ∧
      ReadsLog (oneLog "train" "loss") ⟨"/1"⟩ document "train" "loss" ∧
      (let made := ofDocument 1 document ⟨"/1"⟩ .standard {}
       (made.1.get? "train.loss" (oneLog "train" "loss") made.2).1 = .ok (some (.list values))) ∧
      values.map Value.typeName = ["int", "float"] := by
  obtain ⟨document, hdocument⟩ : ∃ document,
      (Run.scan (oneLog "train" "loss") ⟨"/1"⟩).toOption.join = some document :=
    Option.isSome_iff_exists.mp (by decide +kernel)
  have hscan : Run.scan (oneLog "train" "loss") ⟨"/1"⟩ = .ok (some document) :=
    eq_ok_of_toOption (Option.join_eq_some_iff.mp hdocument)
  have hreads := readsLog_of_registered hscan (by decide +kernel)
    (⟨by decide, by decide, by decide⟩ : Key.NamesLog "train" "loss")
  have hlog : (((oneLog "train" "loss").read (Run.metricLog ⟨"/1"⟩ "train")).toOption.bind
      fun contents => (MetricLog.fieldsOf (Run.metricLog ⟨"/1"⟩ "train") contents).toOption.map
        fun lines => (MetricLog.series lines "loss").map Value.typeName) =
          some ["int", "float"] := by
    decide +kernel
  obtain ⟨contents, hcontents, hlines⟩ := Option.bind_eq_some_iff.mp hlog
  obtain ⟨lines, hfields, htypes⟩ := Option.map_eq_some_iff.mp hlines
  refine ⟨document, MetricLog.series lines "loss", hscan, hreads, ?_, htypes⟩
  refine hreads.series 1 .standard {} (eq_ok_of_toOption hcontents)
    (eq_ok_of_toOption hfields) ?_
  intro hnone
  rw [hnone] at htypes
  cases htypes

/-- A run lists a field for a metric log, and its row does not give what the log has. -/
def Misreads (log field : String) : Prop :=
  ∃ disk run document, Run.scan disk run = .ok (some document) ∧
    Run.Registers disk run log field ∧ ¬ ReadsLog disk run document log field

theorem misreads_of_typeName (disk : Disk) (run : Path) {log field : String}
    (h : Run.Registers disk run log field) (typeName : Option String)
    (hlog : ((disk.read (Run.metricLog run log)).toOption.bind fun contents =>
      (MetricLog.fieldsOf (Run.metricLog run log) contents).toOption.map fun lines =>
        (MetricLog.series lines field).isEmpty) = some false)
    (hrow : ((Run.scan disk run).toOption.join.map fun document =>
      let made := ofDocument 1 document run .standard {}
      (made.1.get? (Key.metric log field) disk made.2).1.toOption.join.map Value.typeName) =
        some typeName) (hlist : typeName ≠ some "list") : Misreads log field := by
  obtain ⟨contents, hcontents, hlines⟩ := Option.bind_eq_some_iff.mp hlog
  obtain ⟨lines, hfields, hempty⟩ := Option.map_eq_some_iff.mp hlines
  obtain ⟨document, hdocument, hname⟩ := Option.map_eq_some_iff.mp hrow
  have hscan : Run.scan disk run = .ok (some document) :=
    eq_ok_of_toOption (Option.join_eq_some_iff.mp hdocument)
  refine ⟨disk, run, document, hscan, h, fun hreads => hlist ?_⟩
  have hseries := hreads.series 1 .standard {} (eq_ok_of_toOption hcontents)
    (eq_ok_of_toOption hfields) (by simpa using hempty)
  rw [← hname]
  dsimp only
  rw [hseries]
  rfl

/-- A key of metadata or of artifacts is not read from a log, and one with a dot in the name
of its log is read from another log. -/
theorem misreads_of_names : Misreads "config" "loss" ∧ Misreads "info" "loss" ∧
    Misreads "artifact" "text.loss" ∧ Misreads "train.eval" "loss" := by
  refine ⟨?_, ?_, ?_, ?_⟩
  · exact misreads_of_typeName (oneLog "config" "loss") ⟨"/1"⟩ (by decide +kernel) (some "str")
      (by decide +kernel) (by decide +kernel) (by decide)
  · exact misreads_of_typeName (oneLog "info" "loss") ⟨"/1"⟩ (by decide +kernel) (some "str")
      (by decide +kernel) (by decide +kernel) (by decide)
  · exact misreads_of_typeName (oneLog "artifact" "text.loss") ⟨"/1"⟩ (by decide +kernel)
      (some "str") (by decide +kernel) (by decide +kernel) (by decide)
  · exact misreads_of_typeName (oneLog "train.eval" "loss") ⟨"/1"⟩ (by decide +kernel) none
      (by decide +kernel) (by decide +kernel) (by decide)

end Row

end Logbook
