import Logbook.Key
import Logbook.Run
import Mathlib.Data.List.TakeWhile

/-!
# Keys and their beginnings

The text after a beginning is what has to be put behind the beginning to get the key.  So a
key that is made of the name of a metric log and a field is taken apart into these again, as
long as there is no dot in the name.  It is one of metadata if the log has the name of a group
of metadata, and one of artifacts if the log is called `artifact` and the field has a dot.
-/

namespace Logbook

namespace Key

private theorem go_eq_some_iff (beginning key : List Char) (rest : String) :
    after?.go beginning key = some rest ↔ key = beginning ++ rest.toList := by
  induction beginning generalizing key with
  | nil =>
    constructor
    · intro h
      simp [after?.go] at h
      simp [← h]
    · rintro rfl
      simp [after?.go]
  | cons c beginning ih =>
    cases key with
    | nil => simp [after?.go]
    | cons d key =>
      by_cases hc : c = d <;> simp [after?.go, hc, ih]
      exact fun h => absurd h.symm hc

theorem after?_eq_some_iff {beginning key rest : String} :
    after? beginning key = some rest ↔ key = beginning ++ rest := by
  rw [after?, go_eq_some_iff, ← String.toList_inj, String.toList_append]

@[simp] theorem after?_append (beginning rest : String) :
    after? beginning (beginning ++ rest) = some rest :=
  after?_eq_some_iff.mpr rfl

/-- The key of a field of a log says which field it is. -/
theorem metric_eq_iff {log field key : String} :
    metric log field = key ↔ after? (log ++ ".") key = some field := by
  rw [after?_eq_some_iff, metric, eq_comm]

theorem toList_metric (log field : String) :
    (metric log field).toList = log.toList ++ '.' :: field.toList := by
  rw [metric, String.toList_append, String.toList_append, List.append_assoc]
  rfl

theorem takeWhile_first (first rest : List Char) :
    (first ++ '.' :: rest).takeWhile (· != '.') = first.takeWhile (· != '.') := by
  induction first with
  | nil => rfl
  | cons c first ih => rw [List.cons_append, List.takeWhile_cons, List.takeWhile_cons, ih]

/-- The name of a log is taken for itself if it is one segment. -/
theorem logName_eq_self_iff {key : String} : logName key = key ↔ '.' ∉ key.toList := by
  rw [logName, ← String.toList_inj, String.toList_ofList, List.takeWhile_eq_self_iff]
  constructor
  · intro h hdot
    exact absurd (h '.' hdot) (by decide)
  · intro h c hc
    rw [bne_iff_ne]
    rintro rfl
    exact h hc

/-- The log of a key is its first segment, so it has to be one segment. -/
theorem logName_metric {log field : String} :
    logName (metric log field) = log ↔ '.' ∉ log.toList := by
  have hfirst : logName (metric log field) = logName log := by
    rw [logName, logName, toList_metric, takeWhile_first]
  rw [hfirst, logName_eq_self_iff]

theorem metric_inj {log other field rest : String} (hlog : '.' ∉ log.toList)
    (hother : '.' ∉ other.toList) :
    metric log field = metric other rest ↔ log = other ∧ field = rest := by
  constructor
  · intro h
    obtain rfl : log = other := by
      rw [← logName_metric.mpr hlog, h, logName_metric.mpr hother]
    have hafter := metric_eq_iff.mp h
    rw [metric, after?_append] at hafter
    exact ⟨rfl, (Option.some.inj hafter).symm⟩
  · rintro ⟨rfl, rfl⟩
    rfl

theorem startsWith_iff {beginning key : String} :
    startsWith beginning key = true ↔ ∃ rest, key = beginning ++ rest := by
  simp [startsWith, Option.isSome_iff_exists, after?_eq_some_iff]

/-- A key of a log is one of metadata if the log is called like a group of metadata. -/
theorem isSearchable_metric {log field : String} (h : '.' ∉ log.toList) :
    isSearchable (metric log field) = true ↔ log ∈ Run.metadataGroups := by
  have hgroup (group : String) (hgroup : '.' ∉ group.toList) :
      startsWith (group ++ ".") (metric log field) = true ↔ log = group := by
    rw [startsWith_iff]
    show (∃ rest, metric log field = metric group rest) ↔ _
    simp [metric_inj h hgroup]
  have hinfo : startsWith "info." (metric log field) = true ↔ log = "info" :=
    hgroup "info" (by decide)
  have hconfig : startsWith "config." (metric log field) = true ↔ log = "config" :=
    hgroup "config" (by decide)
  simp [isSearchable, searchableBeginnings, Run.metadataGroups, hinfo, hconfig, or_comm]

theorem cut?_eq_none_iff {chars : List Char} : cut? chars = none ↔ '.' ∉ chars := by
  fun_induction cut? chars with
  | case1 => simp
  | case2 => simp
  | case3 c rest hdot ih => simp [ih, Ne.symm hdot]

theorem artifactType?_append (rest : String) :
    artifactType? ("artifact." ++ rest) = none ↔ '.' ∉ rest.toList := by
  rw [artifactType?, after?_append, Option.bind_some, Option.map_eq_none_iff, cut?_eq_none_iff]

theorem artifactType?_metric {log field : String} (h : '.' ∉ log.toList) :
    artifactType? (metric log field) = none ↔ (log = "artifact" → '.' ∉ field.toList) := by
  by_cases hlog : log = "artifact"
  · subst hlog
    have hkey : metric "artifact" field = "artifact." ++ field := rfl
    rw [hkey, artifactType?_append]
    simp
  · have hafter : after? "artifact." (metric log field) = none := by
      rw [Option.eq_none_iff_forall_ne_some]
      intro rest hrest
      have hkey : metric log field = metric "artifact" rest := after?_eq_some_iff.mp hrest
      exact hlog ((metric_inj h (by decide)).mp hkey).1
    simp [artifactType?, hafter, hlog]

/-! ## Keys of artifacts -/

private theorem cut?_append (first rest : List Char) :
    (cut? (first ++ '.' :: rest)).map Prod.fst =
      some (String.ofList (first.takeWhile (· != '.'))) := by
  induction first with
  | nil => rfl
  | cons c first ih =>
    by_cases hc : c = '.'
    · subst hc
      rfl
    · obtain ⟨⟨start, others⟩, hcut, hstart⟩ := Option.map_eq_some_iff.mp ih
      have hkeep : (c != '.') = true := by simpa using hc
      have hchars : start.toList = first.takeWhile (· != '.') :=
        (congrArg String.toList hstart).trans String.toList_ofList
      rw [List.cons_append, cut?, hcut, List.takeWhile_cons, if_pos hkeep, ← hchars]
      · rfl
      · exact hc

/-- Only the first segment of a type is taken for the type. -/
theorem artifactType?_artifacts_eq (kind directory : String) :
    artifactType? (artifacts kind directory) = some (logName kind) := by
  rw [artifactType?, artifacts, String.append_assoc, String.append_assoc, after?_append,
    Option.bind_some, String.toList_append, String.toList_append]
  exact cut?_append kind.toList directory.toList

theorem artifactType?_artifacts (kind directory : String) :
    artifactType? (artifacts kind directory) ≠ none := by
  rw [artifactType?_artifacts_eq]
  exact Option.some_ne_none _

@[simp] theorem artifactDirectory_artifacts (kind directory : String) :
    artifactDirectory kind (artifacts kind directory) = directory := by
  rw [artifactDirectory, artifacts, after?_append]
  rfl

end Key

end Logbook
