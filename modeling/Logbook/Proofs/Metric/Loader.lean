import Logbook.Metric.Loader
import Logbook.Proofs.Key
import Logbook.SortedMap.Lemmas

/-!
# A metric loader answers as its log does

`MetricLog.seriesOf` reads the series of one key from the file, without any loader: it
parses the lines that are not blank, in order, and takes the values of the field.  A
loader on the other hand keeps part of what it has read, and a part must never be taken
for the whole.  The invariant is `MetricLoader.Faithful`: whatever is held is in the file,
and all of the file is held while the loader calls itself complete.  Asking and releasing
keep it, and a faithful loader answers with `MetricLog.seriesOf`.
-/

namespace Logbook

namespace MetricLog

/-! ## Reading a series from the file -/

/-- Whether a line says nothing. -/
def isBlankLine : Option String → Bool
  | none => false
  | some line => (Text.trim line.toList).isEmpty

/-- The fields on the line of a number. -/
def fieldsAt (path : Path) : Option String × Nat → Except Error Document
  | (none, _) => .error .files
  | (some line, number) =>
      (fieldsOfLine? (Text.trim line.toList)).elim (.error (.malformedLog path number)) .ok

/-- The fields on each line of a file that is not blank, in order. -/
def fieldsOf (path : Path) (contents : Contents) : Except Error (List Document) :=
  ((contents.lines.zipIdx 1).filter fun line => !isBlankLine line.1).mapM (fieldsAt path)

/-- The values on the lines of the field with a key. -/
def valuesOf (log key : String) (lines : List Document) : List Value :=
  match Key.after? (log ++ ".") key with
  | some field => lines.filterMap fun fields => fields.get? field
  | none => []

/-- The series that a log has for a key: the values of the field over the lines that are
not blank.  The field is missing if no line has it, or if there is no file. -/
def seriesOf (disk : Disk) (path : Path) (log key : String) : Except Error Value :=
  match disk.read path with
  | .error .notFound => .error (.absentMetric key path)
  | .error _ => .error .files
  | .ok contents => do
      let lines ← fieldsOf path contents
      if (valuesOf log key lines).isEmpty then .error (.absentMetric key path)
      else .ok (.list (valuesOf log key lines))

/-! ## Reading a log as a whole -/

theorem lines_eq_mapM (path : Path) (number : Nat) (content : List (Option String)) :
    lines path number content =
      ((content.zipIdx number).filter fun line => !isBlankLine line.1).mapM (fieldsAt path) := by
  induction content generalizing number with
  | nil => rfl
  | cons line content ih =>
    rw [List.zipIdx_cons]
    cases line with
    | none => rfl
    | some line =>
      by_cases hblank : (Text.trim line.toList).isEmpty
      · rw [List.filter_cons_of_neg (by simp [isBlankLine, hblank]), ← ih]
        simp [lines, hblank]
      · rw [List.filter_cons_of_pos (by simp [isBlankLine, hblank]), List.mapM_cons, ← ih]
        cases hfields : fieldsOfLine? (Text.trim line.toList) with
        | none => simp [lines, fieldsAt, hblank, hfields]; rfl
        | some fields =>
          simp [lines, fieldsAt, hblank, hfields]
          cases lines path (number + 1) content <;> rfl

theorem mem_fields {lines : List Document} {field : String} :
    field ∈ fields lines ↔ series lines field ≠ [] := by
  simp only [fields, List.mem_eraseDups, List.mem_flatMap, series, ne_eq, List.filterMap_eq_nil_iff,
    ← SortedMap.contains_iff, SortedMap.contains, Option.isSome_iff_ne_none]
  grind

/-- The entries of a log as a whole: a field that some line has, with its values. -/
theorem mem_map_fields {log key : String} {lines : List Document} {value : Value} :
    (key, value) ∈ (fields lines).map (fun field =>
        (Key.metric log field, Value.list (series lines field))) ↔
      valuesOf log key lines ≠ [] ∧ value = .list (valuesOf log key lines) := by
  simp only [List.mem_map, mem_fields, Prod.mk.injEq, Key.metric_eq_iff, valuesOf]
  constructor
  · rintro ⟨field, hne, hkey, rfl⟩
    rw [hkey]
    exact ⟨hne, rfl⟩
  · rintro ⟨hne, rfl⟩
    cases hkey : Key.after? (log ++ ".") key with
    | none => simp [hkey] at hne
    | some field =>
      rw [hkey] at hne
      exact ⟨field, hne, rfl, rfl⟩

theorem get?_columns (log key : String) (lines : List Document) :
    (columns log lines).get? key =
      if (valuesOf log key lines).isEmpty then none
      else some (.list (valuesOf log key lines)) := by
  by_cases hvalues : valuesOf log key lines = []
  · rw [if_pos (by simp [hvalues])]
    refine SortedMap.get?_eq_none_iff.mpr fun hmem => ?_
    obtain ⟨value, hvalue⟩ := SortedMap.mem_keys_ofList.mp hmem
    exact (mem_map_fields.mp hvalue).1 hvalues
  · rw [if_neg (by simpa using hvalues)]
    refine SortedMap.get?_ofList_of_mem (mem_map_fields.mpr ⟨hvalues, rfl⟩) ?_
    exact fun other hother => (mem_map_fields.mp hother).2

/-- The series of a key is what a log as a whole has for it. -/
theorem seriesOf_eq_read (disk : Disk) (path : Path) (log key : String) :
    seriesOf disk path log key =
      (read disk path log).bind fun whole =>
        (whole.get? key).elim (.error (.absentMetric key path)) .ok := by
  unfold seriesOf read
  cases hread : disk.read path with
  | error fault => cases fault <;> rfl
  | ok contents =>
    have hlines : lines path 1 contents.lines = fieldsOf path contents :=
      lines_eq_mapM path 1 contents.lines
    simp only [hlines]
    cases fieldsOf path contents with
    | error error => rfl
    | ok lines =>
      show (if (valuesOf log key lines).isEmpty then _ else _) =
        ((columns log lines).get? key).elim (Except.error (Error.absentMetric key path)) Except.ok
      rw [get?_columns]
      split <;> rfl

end MetricLog

/-! ## The loader -/

namespace MetricLoader

/-- What a loader holds is in its file, and is all of it if the loader says so. -/
def Faithful (disk : Disk) (loader : MetricLoader) : Prop :=
  ∀ series, loader.loaded = some series →
    ∃ whole, MetricLog.read disk loader.path loader.log = .ok whole ∧
      (∀ key value, series.get? key = some value → whole.get? key = some value) ∧
      (loader.complete = true → series = whole)

theorem faithful_ofRun (disk : Disk) (run : Path) (log : String) :
    (ofRun run log).Faithful disk := by
  intro series hloaded
  contradiction

/-- A loader that has just read its log holds all of it. -/
theorem faithful_of_read {disk : Disk} (loader : MetricLoader) {whole : SortedMap String Value}
    (hread : MetricLog.read disk loader.path loader.log = .ok whole) :
    ({ loader with loaded := some whole, complete := true } : MetricLoader).Faithful disk := by
  intro series hloaded
  cases hloaded
  exact ⟨whole, hread, fun _ _ hget => hget, fun _ => rfl⟩

theorem answer_of_loaded (loader : MetricLoader) (key : String) {series : SortedMap String Value}
    (hloaded : loader.loaded = some series) :
    loader.answer key = (series.get? key).elim (.error (.absentMetric key loader.path)) .ok := by
  unfold answer
  rw [hloaded, Option.bind_some]
  cases series.get? key <;> rfl

/-- What asking can come to: the log is read, reading it fails, or there is no need to. -/
theorem fetch_cases (disk : Disk) (loader : MetricLoader) (key : String) :
    (∃ whole, MetricLog.read disk loader.path loader.log = .ok whole ∧
        loader.fetch disk key =
          ((whole.get? key).elim (.error (.absentMetric key loader.path)) .ok,
            { loader.touch key with loaded := some whole, complete := true })) ∨
      (∃ error, MetricLog.read disk loader.path loader.log = .error error ∧
        loader.fetch disk key = (.error error, loader.touch key)) ∨
      ∃ series, loader.loaded = some series ∧
        (series.get? key = none → loader.complete = true) ∧
        loader.fetch disk key =
          ((series.get? key).elim (.error (.absentMetric key loader.path)) .ok,
            loader.touch key) := by
  by_cases hmust : (loader.touch key).mustRead key
  · cases hread : MetricLog.read disk loader.path loader.log with
    | ok whole =>
      refine Or.inl ⟨whole, rfl, ?_⟩
      simp only [fetch, hmust, if_true]
      rw [hread]
      exact congrArg (Prod.mk · _) (answer_of_loaded _ key rfl)
    | error error =>
      refine Or.inr (Or.inl ⟨error, rfl, ?_⟩)
      simp only [fetch, hmust, if_true]
      rw [hread]
  · cases hloaded : loader.loaded with
    | none => simp [mustRead, touch, hloaded] at hmust
    | some series =>
      refine Or.inr (Or.inr ⟨series, rfl, ?_, ?_⟩)
      · simp [mustRead, touch, hloaded, SortedMap.contains] at hmust
        grind
      · simp only [fetch, hmust]
        exact congrArg (Prod.mk · _) (answer_of_loaded (loader.touch key) key hloaded)

/-- **Asking a faithful loader gives the series that the log has.** -/
theorem fetch_eq_seriesOf {disk : Disk} {loader : MetricLoader} (h : loader.Faithful disk)
    (key : String) :
    (loader.fetch disk key).1 = MetricLog.seriesOf disk loader.path loader.log key := by
  rw [MetricLog.seriesOf_eq_read]
  obtain ⟨whole, hread, hfetch⟩ | ⟨error, hread, hfetch⟩ | ⟨series, hloaded, hcomplete, hfetch⟩ :=
    fetch_cases disk loader key
  · rw [hfetch, hread]
    rfl
  · rw [hfetch, hread]
    rfl
  · -- A series that is not held is not in the file: otherwise it would have been read.
    obtain ⟨whole, hread, hpart, hwhole⟩ := h series hloaded
    have hsame : series.get? key = whole.get? key := by
      cases hget : series.get? key with
      | none => rw [← hwhole (hcomplete hget), hget]
      | some value => rw [hpart key value hget]
    rw [hfetch, hread, hsame]
    rfl

theorem faithful_fetch {disk : Disk} {loader : MetricLoader} (h : loader.Faithful disk)
    (key : String) : (loader.fetch disk key).2.Faithful disk := by
  obtain ⟨whole, hread, hfetch⟩ | ⟨error, -, hfetch⟩ | ⟨series, -, -, hfetch⟩ :=
    fetch_cases disk loader key
  · rw [hfetch]
    exact faithful_of_read (loader.touch key) hread
  · rw [hfetch]
    exact h
  · rw [hfetch]
    exact h

/-- Releasing drops series, and forgets that all are held when it does. -/
theorem faithful_release {disk : Disk} {loader : MetricLoader} (h : loader.Faithful disk) :
    loader.release.Faithful disk := by
  unfold release
  cases hloaded : loader.loaded with
  | none => exact h
  | some series =>
    obtain ⟨whole, hread, hpart, hwhole⟩ := h series hloaded
    by_cases htouched : loader.touched
    · simp only [htouched, if_true]
      intro kept hkept
      cases hkept
      refine ⟨whole, hread, fun key value hget => ?_, fun hcomplete => ?_⟩
      · rw [SortedMap.get?_filter] at hget
        exact hpart key value (Option.filter_eq_some_iff.mp hget).1
      · obtain ⟨hcomplete, hsize⟩ : loader.complete = true ∧
            (series.filter fun key _ => loader.requested.contains key).size = series.size := by
          simpa using hcomplete
        -- A filter that keeps the number of entries keeps all of them.
        rw [← hwhole hcomplete]
        exact SortedMap.ext (List.filter_eq_self.mpr
          (List.length_filter_eq_length_iff.mp hsize))
    · simp only [htouched]
      intro kept hkept
      contradiction

/-! ## Steps of a loader -/

/-- A later state of a loader: for the same log, and faithful if the loader was. -/
structure Continues (disk : Disk) (state later : MetricLoader) : Prop where
  log : later.log = state.log
  path : later.path = state.path
  faithful : state.Faithful disk → later.Faithful disk

theorem Continues.refl (disk : Disk) (state : MetricLoader) : state.Continues disk state :=
  ⟨rfl, rfl, id⟩

theorem Continues.trans {disk : Disk} {first second third : MetricLoader}
    (hfirst : first.Continues disk second) (hsecond : second.Continues disk third) :
    first.Continues disk third :=
  ⟨hsecond.log.trans hfirst.log, hsecond.path.trans hfirst.path,
    hsecond.faithful ∘ hfirst.faithful⟩

theorem continues_fetch (disk : Disk) (loader : MetricLoader) (key : String) :
    loader.Continues disk (loader.fetch disk key).2 := by
  refine ⟨?_, ?_, fun h => faithful_fetch h key⟩ <;>
    obtain ⟨_, _, hfetch⟩ | ⟨_, _, hfetch⟩ | ⟨_, _, _, hfetch⟩ := fetch_cases disk loader key <;>
    rw [hfetch] <;> rfl

theorem continues_release (disk : Disk) (loader : MetricLoader) :
    loader.Continues disk loader.release := by
  refine ⟨?_, ?_, faithful_release⟩ <;> unfold release <;>
    cases loader.loaded <;> by_cases htouched : loader.touched <;> simp [htouched]

end MetricLoader

end Logbook
