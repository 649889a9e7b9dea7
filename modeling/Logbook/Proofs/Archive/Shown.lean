import Logbook.Archive.Basic
import Logbook.Proofs.Reading
import Logbook.Proofs.Store.Search

/-!
# What a query shows

The lazy view of a row that has just been made is the document of its run.  So what a query
shows is decided by the documents of the catalog alone: those that pass the test of the query,
in the order of the runs (`Archive.shown_of_indexed`).
-/

namespace Logbook

/-! ## Views of rows -/

/-- Only the text of a marker stands for a field that is loaded. -/
theorem Origin.eq_value_of_marked (key : String) (value : Value) :
    (∀ name, Origin.of key value = .log name → Marker.metric.value = value) ∧
      ∀ kind, Origin.of key value = .artifacts kind → Marker.artifact.value = value := by
  unfold Origin.of
  cases value with
  | str text =>
    dsimp only [Value.toText?]
    cases Key.artifactType? key with
    | none =>
      dsimp only
      split
      · next hmarker =>
        simp only [Bool.and_eq_true, beq_iff_eq] at hmarker
        rw [hmarker.1]
        refine ⟨fun _ _ => rfl, ?_⟩
        rintro kind ⟨⟩
      · constructor <;> rintro name ⟨⟩
    | some kind =>
      dsimp only
      split
      · next hmarker =>
        rw [eq_of_beq hmarker]
        refine ⟨?_, fun _ _ => rfl⟩
        rintro name ⟨⟩
      · constructor <;> rintro name ⟨⟩
  | _ => constructor <;> rintro name ⟨⟩

theorem Row.viewSlot_of_origin (metric artifacts : String → Nat) (key : String) (value : Value)
    (shelf : Shelf) :
    Row.viewSlot shelf (match Origin.of key value with
      | .document => .value value
      | .log name => .metric (metric name)
      | .artifacts kind => .artifacts (artifacts kind)) = value := by
  obtain ⟨hlog, hartifacts⟩ := Origin.eq_value_of_marked key value
  cases horigin : Origin.of key value with
  | document => rfl
  | log name => exact hlog name horigin
  | artifacts kind => exact hartifacts kind horigin

/-- The lazy view of a new row is the document, whatever happens to the shelf. -/
theorem Row.view_ofDocument (id : RunId) (document : Document) (run : Path) (codecs : Codecs)
    (shelf later : Shelf) :
    (Row.ofDocument id document run codecs shelf).1.view later = document := by
  -- Both maps go over the same keys, so it is enough to look at one field.
  refine SortedMap.ext ?_
  show (document.entries.map _).map _ = document.entries
  rw [List.map_map]
  refine (List.map_congr_left fun field _ => ?_).trans (List.map_id document.entries)
  exact Prod.ext rfl (Row.viewSlot_of_origin _ _ field.1 field.2 later)

namespace Archive

variable {archive : Archive}

/-- What a query shows: the runs that it finds, each with the lazy view of its row. -/
def shown (archive : Archive) (query : String) (disk : Disk) (shelf : Shelf) :
    Except Error (List (Option RunId × Document)) :=
  let (outcome, shelf) := archive.query query disk shelf
  outcome.map fun frame => frame.rows.map fun row => (row.id, row.view shelf)

theorem exists_rows (archive : Archive) (runs : List (RunId × Document)) (disk : Disk)
    (shelf : Shelf) : ∃ rows after,
      runs.mapM (fun run => archive.row run.1 run.2) disk shelf = (.ok rows, after) ∧
        ∀ later, rows.map (fun row => (row.id, row.view later)) =
          runs.map fun run => (some run.1, run.2) := by
  induction runs generalizing shelf with
  | nil => exact ⟨[], shelf, rfl, fun _ => rfl⟩
  | cons run runs ih =>
    let made := Row.ofDocument run.1 run.2 (archive.catalog.runDirectory run.1) archive.codecs shelf
    obtain ⟨rows, after, hrows, hviews⟩ := ih made.2
    refine ⟨made.1 :: rows, after, ?_, fun later => ?_⟩
    · rw [List.mapM_cons]
      refine Reading.bind_eq_ok.mpr ⟨made.1, made.2, rfl, ?_⟩
      exact Reading.bind_eq_ok.mpr ⟨rows, after, hrows, rfl⟩
    · rw [List.map_cons, List.map_cons, hviews]
      exact congrArg (· :: _) (Prod.ext rfl (Row.view_ofDocument _ _ _ _ _ later))

/-- A query shows the documents of the runs that it finds. -/
theorem shown_eq (archive : Archive) (query : String) (disk : Disk) (shelf : Shelf) :
    archive.shown query disk shelf =
      (archive.find query).map fun runs => runs.map fun run => (some run.1, run.2) := by
  have hlift : (liftM (archive.find query) : Reading _) disk shelf =
      (archive.find query, shelf) := rfl
  cases hfind : archive.find query with
  | error error =>
    have hquery : archive.query query disk shelf = (.error error, shelf) := by
      rw [Archive.query, Reading.bind_apply, hlift, hfind]
    rw [shown, hquery]
    rfl
  | ok runs =>
    obtain ⟨rows, after, hrows, hviews⟩ := exists_rows archive runs disk shelf
    have hquery : archive.query query disk shelf = (.ok ⟨rows⟩, after) := by
      refine Reading.bind_eq_ok.mpr ⟨runs, shelf, hlift.trans (by rw [hfind]), ?_⟩
      exact Reading.bind_eq_ok.mpr ⟨rows, after, hrows, rfl⟩
    rw [shown, hquery]
    exact congrArg Except.ok (hviews after)

/-- What a query asks of a document.  A blank query asks nothing. -/
def test (archive : Archive) (query : String) : Except Error (Document → Bool) :=
  if (Text.trim query.toList).isEmpty then .ok fun _ => true
  else match archive.parser query with
    | .ok predicate => .ok predicate.holds
    | .error cause => .error (.query cause)

/-- What a query shows if the runs have these documents. -/
def answer (archive : Archive) (runs : List (RunId × Document)) (query : String) :
    Except Error (List (Option RunId × Document)) :=
  (archive.test query).map fun holds =>
    (runs.filter fun run => holds run.2).map fun run => (some run.1, run.2)

theorem answer_blank (archive : Archive) (runs : List (RunId × Document)) :
    archive.answer runs "" = .ok (runs.map fun run => (some run.1, run.2)) := by
  show Except.ok ((runs.filter fun _ => true).map _) = _
  rw [List.filter_eq_self.mpr fun _ _ => rfl]

/-- **What a query shows is its answer to the documents of the catalog.** -/
theorem shown_of_indexed (hindexed : archive.catalog.store.Indexed) (query : String)
    (disk : Disk) (shelf : Shelf) :
    archive.shown query disk shelf = archive.answer archive.catalog.all query := by
  have hfind : archive.find query = (archive.test query).map fun holds =>
      archive.catalog.all.filter fun run => holds run.2 := by
    unfold find test
    split
    · show Except.ok _ = Except.ok (archive.catalog.all.filter fun _ => true)
      rw [List.filter_eq_self.mpr fun _ _ => rfl]
    · cases archive.parser query with
      | error cause => rfl
      | ok predicate => exact congrArg Except.ok (Store.search_of_indexed hindexed predicate)
  rw [shown_eq, hfind, answer]
  cases archive.test query <;> rfl

end Archive

end Logbook
