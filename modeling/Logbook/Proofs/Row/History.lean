import Logbook.Frame.Basic
import Logbook.Proofs.Outcome
import Logbook.Proofs.Row.Cells
import Logbook.Proofs.Shelf

/-!
# What a row gives does not depend on what was read before

A row of a run and its copies share loaders, and every reading changes them.  This file
proves that nobody can tell: whatever was asked for, released or copied before, a field
is what its file says, as long as the files do not change.

## Strategy

* `Origin.read` says what a field is without loaders: it reads the run's file
  afresh.  `Access.afresh` extends this to everything that can be done with a row.
* A `Desk` has the row, the copies made of it so far, and the shelf with their loaders.
  `Desk.perform` is one step, and `Desk.run` a history of steps.
* The invariant is `Shelf.Serves`: behind each field that is loaded stands a loader for
  the right file that is faithful to it.  `Shelf.Keeps` carries it over every step.
* A row of a run has no computed fields, so a copy of it is the row itself.
-/

namespace Logbook

/-! ## Reading afresh -/

section Afresh

variable (disk : Disk) (run : Path) (codecs : Codecs)

/-- The value of a field that comes from there, read from the run's files. -/
def Origin.read (key : String) (value : Value) : Origin → Except Error Value
  | document => .ok value
  | log name => MetricLog.seriesOf disk (Run.metricLog run name) name key
  | artifacts kind => Listing.groupOf disk run kind (codecs.get? kind) key

/-- What stands for a field that comes from there while nothing is loaded. -/
def Origin.shown (value : Value) : Origin → Value
  | document => value
  | log _ => Marker.metric.value
  | artifacts _ => Marker.artifact.value

/-- The value of a field, read from the run's files. -/
def Document.readField (key : String) (value : Value) : Except Error Value :=
  (Origin.of key value).read disk run codecs key value

/-- The value at a key, if the document has it. -/
def Document.readKey (document : Document) (key : String) : Except Error (Option Value) :=
  match document.get? key with
  | some value => return some (← readField disk run codecs key value)
  | none => return none

/-- The value at a key; one that the document does not have is null. -/
def Document.readCell (document : Document) (key : String) : Except Error Value := do
  return (← document.readKey disk run codecs key).getD .null

/-- The values of all fields, in key order. -/
def Document.readAll (document : Document) : Except Error Document := do
  let fields ← document.entries.mapM fun (key, value) =>
    return (key, ← readField disk run codecs key value)
  return SortedMap.ofList fields

/-- The document with a marker for each field that is loaded. -/
def Document.shown (document : Document) : Document :=
  document.mapValues fun key value => (Origin.of key value).shown value

/-- A field of a metric log has the values of the lines, and is missing if there are none. -/
theorem Document.readKey_of_log {document : Document} {key log : String} {value : Value}
    (hget : document.get? key = some value) (horigin : Origin.of key value = .log log)
    {contents : Contents} {lines : List Document}
    (hread : disk.read (Run.metricLog run log) = .ok contents)
    (hlines : MetricLog.fieldsOf (Run.metricLog run log) contents = .ok lines) :
    document.readKey disk run codecs key =
      if (MetricLog.valuesOf log key lines).isEmpty then
        .error (.absentMetric key (Run.metricLog run log))
      else .ok (some (.list (MetricLog.valuesOf log key lines))) := by
  simp only [readKey, hget, readField, horigin, Origin.read, MetricLog.seriesOf, hread, hlines,
    Outcome.ok_bind]
  split <;> rfl

end Afresh

/-! ## Histories -/

/-- What can be done with a row or its copies.  The row itself has the number zero. -/
inductive Access where
  /-- Reads a field. -/
  | get (row : Nat) (key : String)
  /-- Reads a column of a frame of rows. -/
  | column (rows : List Nat) (key : String)
  /-- Reads all fields. -/
  | materialize (row : Nat)
  /-- Looks at the lazy view. -/
  | view (row : Nat)
  /-- Releases the loaders. -/
  | release (row : Nat)
  /-- Makes one more copy. -/
  | copy (row : Nat)

/-- What an access gives. -/
inductive Answer where
  /-- A field, if the row has it. -/
  | field (outcome : Except Error (Option Value))
  /-- The cells of a column. -/
  | cells (outcome : Except Error (List Value))
  /-- All fields. -/
  | fields (outcome : Except Error Document)
  /-- The lazy view. -/
  | view (fields : Document)
  /-- Nothing but whether it could be done. -/
  | done (outcome : Except Error Unit)

/-- What an access gives that reads the files afresh. -/
def Access.afresh (disk : Disk) (run : Path) (codecs : Codecs) (document : Document) :
    Access → Answer
  | get _ key => .field (document.readKey disk run codecs key)
  | column rows key => .cells (rows.mapM fun _ => document.readCell disk run codecs key)
  | materialize _ => .fields (document.readAll disk run codecs)
  | view _ => .view document.shown
  | release _ => .done (.ok ())
  | copy _ => .done (.ok ())

/-- A row with the copies made of it, and what has been loaded. -/
structure Desk where
  /-- The row. -/
  first : Row
  /-- The copies, in the order in which they were made. -/
  copies : List Row := []
  /-- What has been loaded. -/
  shelf : Shelf

namespace Desk

/-- The desk of a row that has just been made for a run. -/
def ofDocument (id : RunId) (document : Document) (run : Path) (codecs : Codecs) (shelf : Shelf) :
    Desk where
  first := (Row.ofDocument id document run codecs shelf).1
  shelf := (Row.ofDocument id document run codecs shelf).2

/-- The row of a number; one that has not been made stands for the first. -/
def row (desk : Desk) : Nat → Row
  | 0 => desk.first
  | number + 1 => desk.copies.getD number desk.first

/-- Does a reading on the shelf. -/
def ask {α : Type} (disk : Disk) (desk : Desk) (reading : Reading α)
    (answer : Except Error α → Answer) : Answer × Desk :=
  let (outcome, shelf) := reading disk desk.shelf
  (answer outcome, { desk with shelf := shelf })

/-- One access. -/
def perform (disk : Disk) (desk : Desk) : Access → Answer × Desk
  | .get row key => desk.ask disk ((desk.row row).get? key) .field
  | .column rows key => desk.ask disk (Frame.column ⟨rows.map desk.row⟩ key) .cells
  | .materialize row => desk.ask disk (desk.row row).materialize .fields
  | .view row => (.view ((desk.row row).view desk.shelf), desk)
  | .release row => desk.ask disk (desk.row row).release .done
  | .copy row =>
      match (desk.row row).copy disk desk.shelf with
      | (.ok copy, shelf) =>
          (.done (.ok ()), { desk with copies := desk.copies ++ [copy], shelf := shelf })
      | (.error error, shelf) => (.done (.error error), { desk with shelf := shelf })

/-- What a sequence of accesses gives, and the desk after them. -/
def run (disk : Disk) (desk : Desk) : List Access → List Answer × Desk
  | [] => ([], desk)
  | access :: accesses =>
      let (answer, next) := desk.perform disk access
      let (answers, last) := next.run disk accesses
      (answer :: answers, last)

end Desk

/-! ## The loaders behind a row -/

/-- A slot for a field that comes from there: the value, or a faithful loader for the
right file. -/
inductive Slot.Serves (disk : Disk) (run : Path) (codecs : Codecs) (shelf : Shelf)
    (value : Value) : Origin → Slot → Prop where
  | document : Serves disk run codecs shelf value .document (.value value)
  | log {name : String} {loader : Nat} {state : MetricLoader}
      (hstate : shelf.metrics[loader]? = some state) (hlog : state.log = name)
      (hpath : state.path = Run.metricLog run name) (hfaithful : state.Faithful disk) :
      Serves disk run codecs shelf value (.log name) (.metric loader)
  | artifacts {kind : String} {loader : Nat} {state : ArtifactLoader}
      (hstate : shelf.artifacts[loader]? = some state) (hrun : state.run = run)
      (hkind : state.kind = kind) (hcodec : state.codec = codecs.get? kind)
      (hfaithful : state.Faithful disk) :
      Serves disk run codecs shelf value (.artifacts kind) (.artifacts loader)

/-- Every field of a document has the slot that it needs. -/
def Shelf.Serves (disk : Disk) (run : Path) (codecs : Codecs) (document : Document)
    (slot : String → Value → Slot) (shelf : Shelf) : Prop :=
  ∀ key value, (key, value) ∈ document.entries →
    Slot.Serves disk run codecs shelf value (Origin.of key value) (slot key value)

section Serves

variable {disk : Disk} {run : Path} {codecs : Codecs} {document : Document}
  {slot : String → Value → Slot} {shelf after : Shelf}

theorem Slot.serves_of_keeps {value : Value} {origin : Origin} {slot : Slot}
    (hserves : Slot.Serves disk run codecs shelf value origin slot)
    (hkeeps : shelf.Keeps disk after) : Slot.Serves disk run codecs after value origin slot := by
  cases hserves with
  | document => exact .document
  | log hstate hlog hpath hfaithful =>
    obtain ⟨later, hlater, hcontinues⟩ := hkeeps.metrics _ _ hstate
    exact .log hlater (hcontinues.log.trans hlog) (hcontinues.path.trans hpath)
      (hcontinues.faithful hfaithful)
  | artifacts hstate hrun hkind hcodec hfaithful =>
    obtain ⟨later, hlater, hcontinues⟩ := hkeeps.artifacts _ _ hstate
    exact .artifacts hlater (hcontinues.run.trans hrun) (hcontinues.kind.trans hkind)
      (hcontinues.codec.trans hcodec) (hcontinues.faithful hfaithful)

theorem Shelf.serves_of_keeps (hserves : shelf.Serves disk run codecs document slot)
    (hkeeps : shelf.Keeps disk after) : after.Serves disk run codecs document slot :=
  fun key value hfield => Slot.serves_of_keeps (hserves key value hfield) hkeeps

theorem Slot.viewSlot_of_serves {value : Value} {origin : Origin} {slot : Slot}
    (hserves : Slot.Serves disk run codecs shelf value origin slot) :
    Row.viewSlot shelf slot = origin.shown value := by
  cases hserves <;> rfl

/-- A slot that serves its field gives what the file says. -/
theorem Slot.readSlot_of_serves {key : String} {value : Value} {origin : Origin} {slot : Slot}
    (hserves : Slot.Serves disk run codecs shelf value origin slot) :
    (Row.readSlot key slot disk shelf).1 = origin.read disk run codecs key value ∧
      shelf.Keeps disk (Row.readSlot key slot disk shelf).2 := by
  cases hserves with
  | document => exact ⟨rfl, .refl disk shelf⟩
  | @log name loader state hstate hlog hpath hfaithful =>
    refine ⟨?_, Shelf.keeps_fetchMetric disk shelf loader key⟩
    show (Shelf.fetchMetric loader key disk shelf).1 =
      MetricLog.seriesOf disk (Run.metricLog run name) name key
    rw [Shelf.fetchMetric_apply hstate, ← hpath, ← hlog]
    exact MetricLoader.fetch_eq_seriesOf hfaithful key
  | @artifacts kind loader state hstate hrun hkind hcodec hfaithful =>
    refine ⟨?_, Shelf.keeps_fetchArtifacts disk shelf loader key⟩
    show (Shelf.fetchArtifacts loader key disk shelf).1 =
      Listing.groupOf disk run kind (codecs.get? kind) key
    rw [Shelf.fetchArtifacts_apply hstate, ← hcodec, ← hkind, ← hrun]
    exact ArtifactLoader.fetch_eq_groupOf hfaithful key

theorem Shelf.answers_readSlot {key : String} {value : Value}
    (hfield : (key, value) ∈ document.entries) :
    Reading.Answers disk (Shelf.Serves disk run codecs document slot)
      (Row.readSlot key (slot key value)) (Document.readField disk run codecs key value) := by
  intro shelf hserves
  obtain ⟨hvalue, hkeeps⟩ := Slot.readSlot_of_serves (hserves key value hfield)
  exact ⟨hvalue, Shelf.serves_of_keeps hserves hkeeps⟩

/-! ## Reading a row whose loaders are faithful -/

variable {row : Row} (hslots : row.slots = document.mapValues slot)
include hslots

theorem Row.view_of_serves (hserves : shelf.Serves disk run codecs document slot) :
    row.view shelf = document.shown := by
  refine SortedMap.ext ?_
  rw [Row.view, hslots, Document.shown, SortedMap.entries_mapValues, SortedMap.entries_mapValues,
    SortedMap.entries_mapValues, List.map_map]
  refine List.map_congr_left fun field hfield => ?_
  exact congrArg (Prod.mk field.1) (Slot.viewSlot_of_serves (hserves field.1 field.2 hfield))

theorem Row.answers_get? (key : String) :
    Reading.Answers disk (Shelf.Serves disk run codecs document slot) (row.get? key)
      (document.readKey disk run codecs key) := by
  unfold Row.get? Document.readKey
  rw [hslots, SortedMap.get?_mapValues]
  cases hget : document.get? key with
  | none => exact Reading.answers_pure none
  | some value =>
    refine Reading.answers_bind (Shelf.answers_readSlot (SortedMap.mem_of_get? hget)) ?_
    intro value _
    exact Reading.answers_pure (some value)

theorem Row.answers_cell (key : String) :
    Reading.Answers disk (Shelf.Serves disk run codecs document slot) (row.cell key)
      (document.readCell disk run codecs key) := by
  refine Reading.answers_bind (Row.answers_get? hslots key) ?_
  intro value _
  exact Reading.answers_pure (value.getD .null)

theorem Row.answers_materialize :
    Reading.Answers disk (Shelf.Serves disk run codecs document slot) row.materialize
      (document.readAll disk run codecs) := by
  unfold Row.materialize Document.readAll
  rw [hslots, SortedMap.entries_mapValues, List.mapM_map]
  refine Reading.answers_bind (Reading.answers_mapM fun field hfield => ?_) ?_
  · refine Reading.answers_bind (Shelf.answers_readSlot hfield) ?_
    intro value _
    exact Reading.answers_pure (field.1, value)
  · intro fields _
    exact Reading.answers_pure (SortedMap.ofList fields)

omit hslots in
theorem Row.answers_release (row : Row) :
    Reading.Answers disk (Shelf.Serves disk run codecs document slot) row.release (.ok ()) := by
  refine Reading.answers_ofShelf fun shelf hserves => ⟨rfl, ?_⟩
  exact Shelf.serves_of_keeps hserves (Shelf.keeps_release disk shelf row.metrics row.artifacts)

omit hslots in
/-- A column is read row by row, and each row is released when it has been read. -/
theorem Frame.answers_column {rows : List Row}
    (hrows : ∀ row ∈ rows, row.slots = document.mapValues slot) (key : String) :
    Reading.Answers disk (Shelf.Serves disk run codecs document slot) (Frame.column ⟨rows⟩ key)
      (rows.mapM fun _ => document.readCell disk run codecs key) := by
  refine Reading.answers_mapM fun row hrow => ?_
  exact Reading.answers_followed (Row.answers_cell (hrows row hrow) key) (Row.answers_release row)

/-- No field of a document is computed. -/
theorem Row.copy_of_serves (hserves : shelf.Serves disk run codecs document slot) :
    row.copy disk shelf = (.ok row, shelf) := by
  refine Row.copy_of_plain (fun key => ?_) disk shelf
  rw [Option.eq_none_iff_forall_ne_some]
  intro cell hcell
  have hmem := SortedMap.mem_of_get? (Row.cellAt?_eq_some_iff.mp hcell)
  rw [hslots, SortedMap.entries_mapValues] at hmem
  obtain ⟨field, hfield, heq⟩ := List.mem_map.mp hmem
  have hslot := hserves field.1 field.2 hfield
  rw [(Prod.mk.inj heq).2] at hslot
  generalize Origin.of field.1 field.2 = origin at hslot
  cases hslot

end Serves

/-! ## The loaders that a row is made with -/

/-- Where to find what has been made for an item and put behind an array. -/
private theorem getElem?_append_idxOf {α β : Type} [DecidableEq α] (states : Array β)
    (make : α → β) {items : List α} {item : α} (hitem : item ∈ items) :
    (states ++ (items.map make).toArray)[states.size + items.idxOf item]? = some (make item) := by
  have hbound : items.idxOf item < items.length := List.idxOf_lt_length_iff.mpr hitem
  rw [Array.getElem?_append_right (Nat.le_add_right _ _), Nat.add_sub_cancel_left,
    List.getElem?_toArray, List.getElem?_map, List.getElem?_eq_getElem hbound,
    List.getElem_idxOf hbound]
  rfl

/-- A new row finds its loaders behind those that were on the shelf. -/
theorem Row.serves_ofDocument (disk : Disk) (id : RunId) (document : Document) (run : Path)
    (codecs : Codecs) (shelf : Shelf) :
    ∃ slot, (Row.ofDocument id document run codecs shelf).1.slots = document.mapValues slot ∧
      (Row.ofDocument id document run codecs shelf).2.Serves disk run codecs document slot := by
  dsimp only [Row.ofDocument]
  refine ⟨_, rfl, ?_⟩
  intro key value hfield
  have horigin : Origin.of key value ∈
      document.entries.map fun field => Origin.of field.1 field.2 :=
    List.mem_map.mpr ⟨(key, value), hfield, rfl⟩
  dsimp only
  generalize Origin.of key value = origin at horigin
  cases origin with
  | document => exact .document
  -- The slot has the position of the log among the new loaders.
  | log name =>
    have hname : name ∈ ((document.entries.map fun field =>
        Origin.of field.1 field.2).filterMap Origin.log?).eraseDups :=
      List.mem_eraseDups.mpr (List.mem_filterMap.mpr ⟨_, horigin, rfl⟩)
    exact .log (getElem?_append_idxOf shelf.metrics (MetricLoader.ofRun run) hname) rfl rfl
      (MetricLoader.faithful_ofRun disk run name)
  | artifacts kind =>
    have hkind : kind ∈ ((document.entries.map fun field =>
        Origin.of field.1 field.2).filterMap Origin.kind?).eraseDups :=
      List.mem_eraseDups.mpr (List.mem_filterMap.mpr ⟨_, horigin, rfl⟩)
    refine .artifacts (getElem?_append_idxOf shelf.artifacts _ hkind) rfl rfl rfl ?_
    intro groups hloaded
    contradiction

/-! ## Steps and histories -/

namespace Desk

/-- The row is one of the run, the copies are like it, and the loaders behind them are
faithful. -/
structure Served (disk : Disk) (run : Path) (codecs : Codecs) (document : Document) (desk : Desk) :
    Prop where
  copies : ∀ copy ∈ desk.copies, copy = desk.first
  loaders : ∃ slot, desk.first.slots = document.mapValues slot ∧
    desk.shelf.Serves disk run codecs document slot

variable {disk : Disk} {run : Path} {codecs : Codecs} {document : Document} {desk : Desk}

theorem served_ofDocument (disk : Disk) (id : RunId) (document : Document) (run : Path)
    (codecs : Codecs) (shelf : Shelf) :
    (ofDocument id document run codecs shelf).Served disk run codecs document where
  copies _ hcopy := absurd hcopy List.not_mem_nil
  loaders := Row.serves_ofDocument disk id document run codecs shelf

theorem row_eq_first (hcopies : ∀ copy ∈ desk.copies, copy = desk.first) (number : Nat) :
    desk.row number = desk.first := by
  cases number with
  | zero => rfl
  | succ number =>
    show desk.copies.getD number desk.first = desk.first
    rw [List.getD_eq_getElem?_getD]
    cases hcopy : desk.copies[number]? with
    | none => rfl
    | some copy => exact hcopies copy (List.mem_of_getElem? hcopy)

/-- A reading with one answer gives it, and leaves the loaders faithful. -/
theorem served_ask {α : Type} {reading : Reading α} {outcome : Except Error α}
    (hcopies : ∀ copy ∈ desk.copies, copy = desk.first) {slot : String → Value → Slot}
    (hslots : desk.first.slots = document.mapValues slot)
    (hserves : desk.shelf.Serves disk run codecs document slot)
    (hanswers : Reading.Answers disk (Shelf.Serves disk run codecs document slot) reading outcome)
    (answer : Except Error α → Answer) :
    (desk.ask disk reading answer).1 = answer outcome ∧
      (desk.ask disk reading answer).2.Served disk run codecs document := by
  obtain ⟨houtcome, hafter⟩ := hanswers desk.shelf hserves
  exact ⟨congrArg answer houtcome, hcopies, slot, hslots, hafter⟩

/-- **One access gives what reading afresh gives, and the next one finds the desk in
order.** -/
theorem perform_eq_afresh (hdesk : desk.Served disk run codecs document) (access : Access) :
    (desk.perform disk access).1 = access.afresh disk run codecs document ∧
      (desk.perform disk access).2.Served disk run codecs document := by
  obtain ⟨hcopies, slot, hslots, hserves⟩ := hdesk
  have hrow := row_eq_first hcopies
  cases access with
  | get row key =>
    simp only [perform, hrow]
    exact served_ask hcopies hslots hserves (Row.answers_get? hslots key) _
  | column rows key =>
    -- Whichever rows the column has, their slots are those of the first.
    have hrows : ∀ row ∈ rows.map desk.row, row.slots = document.mapValues slot := by
      intro row hmem
      obtain ⟨number, -, rfl⟩ := List.mem_map.mp hmem
      rw [hrow, hslots]
    have hcells : ((rows.map desk.row).mapM fun _ => document.readCell disk run codecs key) =
        rows.mapM fun _ => document.readCell disk run codecs key := List.mapM_map
    simp only [perform, Access.afresh]
    rw [← hcells]
    exact served_ask hcopies hslots hserves (Frame.answers_column hrows key) _
  | materialize row =>
    simp only [perform, hrow]
    exact served_ask hcopies hslots hserves (Row.answers_materialize hslots) _
  | view row =>
    simp only [perform, hrow]
    rw [Row.view_of_serves hslots hserves]
    exact ⟨rfl, hcopies, slot, hslots, hserves⟩
  | release row =>
    exact served_ask hcopies hslots hserves (Row.answers_release (desk.row row)) _
  | copy row =>
    simp only [perform, hrow]
    rw [Row.copy_of_serves hslots hserves]
    refine ⟨rfl, ?_, slot, hslots, hserves⟩
    intro copy hcopy
    obtain hold | hnew := List.mem_append.mp hcopy
    · exact hcopies copy hold
    · exact List.mem_singleton.mp hnew

theorem run_eq_afresh (hdesk : desk.Served disk run codecs document) (accesses : List Access) :
    (desk.run disk accesses).1 = accesses.map (Access.afresh disk run codecs document) := by
  induction accesses generalizing desk with
  | nil => rfl
  | cons access accesses ih =>
    obtain ⟨hanswer, hnext⟩ := perform_eq_afresh hdesk access
    show (desk.perform disk access).1 :: ((desk.perform disk access).2.run disk accesses).1 = _
    rw [hanswer, ih hnext, List.map_cons]

/-- **What a row and its copies give does not depend on what was done before.**  In any
history of accesses to a row of a run, each one gives what reading the files afresh
gives: a series is the list of the field's values over its log, a group of artifacts is
the one in the list of artifacts, and the lazy view has their markers. -/
theorem run_ofDocument_eq_afresh (disk : Disk) (id : RunId) (document : Document) (run : Path)
    (codecs : Codecs) (shelf : Shelf) (accesses : List Access) :
    ((ofDocument id document run codecs shelf).run disk accesses).1 =
      accesses.map (Access.afresh disk run codecs document) :=
  run_eq_afresh (served_ofDocument disk id document run codecs shelf) accesses

/-- The disk of one run with one metric log, which has a blank line and a field that is not on
all lines. -/
def unevenLog : Disk :=
  ⟨⟨"/1"⟩, .folder [("metrics", .folder [("train.json", .file (.text
    "\x7b\"loss\": 3\x7d\n\n\x7b\"epoch\": 1, \"loss\": 2\x7d\n"))])]⟩

/-- The document of a run with three fields of one metric log. -/
def threeFields : Document :=
  SortedMap.ofList (["train.epoch", "train.loss", "train.rate"].map fun key =>
    (key, Marker.metric.value))

/-- A field that no line has stays missing, and the others have the values of their lines, also
in a copy and after a release. -/
theorem run_unevenLog :
    let log : Path := Run.metricLog ⟨"/1"⟩ "train"
    let accesses : List Access := [.get 0 "train.loss", .copy 0, .release 1, .get 1 "train.epoch",
      .get 0 "train.rate", .column [1, 0] "train.loss", .view 0]
    ∃ losses epochs : List Value,
      losses.map Value.toInt64? = [some 3, some 2] ∧ epochs.map Value.toInt64? = [some 1] ∧
      ((ofDocument 1 threeFields ⟨"/1"⟩ .standard {}).run unevenLog accesses).1 =
        [.field (.ok (some (.list losses))), .done (.ok ()), .done (.ok ()),
          .field (.ok (some (.list epochs))), .field (.error (.absentMetric "train.rate" log)),
          .cells (.ok [.list losses, .list losses]), .view threeFields] := by
  intro log accesses
  have hvalues : ((unevenLog.read log).toOption.bind fun contents =>
      (MetricLog.fieldsOf log contents).toOption.map fun lines =>
        ["train.loss", "train.epoch", "train.rate"].map fun key =>
          (MetricLog.valuesOf "train" key lines).map Value.toInt64?) =
        some [[some 3, some 2], [some 1], []] := by
    decide +kernel
  obtain ⟨contents, hcontents, hlines⟩ := Option.bind_eq_some_iff.mp hvalues
  obtain ⟨lines, hfields, hseries⟩ := Option.map_eq_some_iff.mp hlines
  simp only [List.map_cons, List.map_nil, List.cons.injEq, and_true] at hseries
  obtain ⟨hlosses, hepochs, hrates⟩ := hseries
  have hread (key : String) (hget : threeFields.get? key = some Marker.metric.value)
      (horigin : Origin.of key Marker.metric.value = .log "train") :=
    Document.readKey_of_log unevenLog ⟨"/1"⟩ .standard hget horigin
      (Outcome.eq_ok_of_toOption hcontents) (Outcome.eq_ok_of_toOption hfields)
  have hloss := (hread "train.loss" rfl (by decide +kernel)).trans
    (if_neg fun hempty => by simp [List.isEmpty_iff.mp hempty] at hlosses)
  have hepoch := (hread "train.epoch" rfl (by decide +kernel)).trans
    (if_neg fun hempty => by simp [List.isEmpty_iff.mp hempty] at hepochs)
  have hrate := (hread "train.rate" rfl (by decide +kernel)).trans (if_pos (by simpa using hrates))
  refine ⟨_, _, hlosses, hepochs, ?_⟩
  rw [run_ofDocument_eq_afresh]
  simp only [accesses, List.map_cons, List.map_nil, Access.afresh, Document.readCell, hloss, hepoch,
    hrate]
  rfl

end Desk

end Logbook
