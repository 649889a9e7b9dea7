import Logbook.Proofs.Row.Series

/-!
# Markers beside metadata

The scan of a run puts markers for metrics and artifacts into the document that has its
metadata, and a marker takes the place of metadata with the same key.  So metadata can be
lost, and this file says when: exactly if the run lists a field for a metric log whose dotted
key is one of its metadata (`Run.keepsMetadata_iff`).

## Strategy

* All keys of metadata are those of the two groups, or below them (`Run.isOf_of_metadata`).
  Keys of artifacts are not (`Run.not_isOf_artifacts`), so their markers do no harm.
* Every marker of a metric comes from a field that is listed
  (`Run.exists_registers_of_mem_metricMarkers`), and every listed field has its marker.
* Of entries with one key the last counts, and all markers of metrics are one value.

Only a log that is called like a group of metadata, or has a name below one, can do harm
(`Run.Collides.isOf_log`).
-/

namespace Logbook

namespace Run

open Outcome

variable {disk : Disk} {run : Path} {document : Document} {log field : String}

/-! ## Keys of metadata -/

/-- A key is that of a group, or below it. -/
def IsOf (group key : String) : Prop := key = group ∨ ∃ rest, key = group ++ "." ++ rest

mutual

theorem isOf_of_mem_leaves (key : String) (value : Value) :
    ∀ leaf ∈ leaves key value, IsOf key leaf.1 := by
  cases value with
  | map entries =>
    exact fun leaf hleaf => .inr (exists_of_mem_leavesOfEntries key entries leaf hleaf)
  | _ =>
    intro leaf hleaf
    cases List.mem_singleton.mp hleaf
    exact .inl rfl

theorem exists_of_mem_leavesOfEntries (key : String) (entries : List (String × Value)) :
    ∀ leaf ∈ leavesOfEntries key entries, ∃ rest, leaf.1 = key ++ "." ++ rest := by
  cases entries with
  | nil => simp [leavesOfEntries]
  | cons entry entries =>
    intro leaf hleaf
    rcases List.mem_append.mp hleaf with hfirst | hmore
    · obtain heq | ⟨rest, heq⟩ := isOf_of_mem_leaves _ entry.2 leaf hfirst
      · exact ⟨entry.1, heq⟩
      · refine ⟨entry.1 ++ "." ++ rest, heq.trans ?_⟩
        simp only [String.append_assoc]
    · exact exists_of_mem_leavesOfEntries key entries leaf hmore

end

theorem isOf_of_metadata {groups : List String} {fields : List (String × Value)}
    (h : metadataFields? disk run groups = .ok (some fields)) :
    ∀ entry ∈ fields, ∃ group ∈ groups, IsOf group entry.1 := by
  induction groups generalizing fields with
  | nil =>
    cases h
    simp
  | cons group groups ih =>
    obtain ⟨value?, -, hrest⟩ := bind_eq_ok.mp h
    cases value? with
    | none => cases hrest
    | some value =>
      obtain ⟨more?, hmore, hpure⟩ := bind_eq_ok.mp hrest
      cases more? with
      | none => cases hpure
      | some more =>
        cases hpure
        intro entry hentry
        rcases List.mem_append.mp hentry with hfirst | hlast
        · exact ⟨group, List.mem_cons_self, isOf_of_mem_leaves group value entry hfirst⟩
        · obtain ⟨other, hother, hisOf⟩ := ih hmore entry hlast
          exact ⟨other, List.mem_cons_of_mem _ hother, hisOf⟩

theorem not_isOf_artifacts {group : String} (hgroup : group ∈ metadataGroups)
    (kind directory : String) : ¬ IsOf group (Key.artifacts kind directory) := by
  have hhead : (Key.artifacts kind directory).toList.head? = some 'a' := by
    simp [Key.artifacts, String.toList_append]
  simp only [metadataGroups, List.mem_cons, List.not_mem_nil, or_false] at hgroup
  rintro (heq | ⟨rest, heq⟩) <;> rw [heq] at hhead <;> obtain rfl | rfl := hgroup <;>
    simp [String.toList_append] at hhead

/-- A dotted key is below a group exactly if its log is called like the group or below it. -/
theorem isOf_metric {group : String} (hgroup : '.' ∉ group.toList)
    (h : IsOf group (Key.metric log field)) : IsOf group log := by
  obtain heq | ⟨rest, heq⟩ := h
  · refine absurd ?_ hgroup
    rw [← heq, Key.toList_metric]
    simp
  · have hlists : log.toList ++ '.' :: field.toList = group.toList ++ '.' :: rest.toList := by
      have hbelow : group ++ "." ++ rest = Key.metric group rest := rfl
      rw [← Key.toList_metric, heq, hbelow, Key.toList_metric]
    -- The one that ends first is followed by the dot, and there is none in the group.
    obtain ⟨more, hlonger, hrest⟩ | ⟨more, hlonger, hrest⟩ := List.append_eq_append_iff.mp hlists
    · cases more with
      | nil => exact .inl (String.toList_inj.mp (hlonger.trans (List.append_nil _)).symm)
      | cons c more =>
        obtain ⟨rfl, -⟩ := List.cons.inj hrest
        exact absurd (by simp [hlonger]) hgroup
    · cases more with
      | nil => exact .inl (String.toList_inj.mp (hlonger.trans (List.append_nil _)))
      | cons c more =>
        obtain ⟨rfl, -⟩ := List.cons.inj hrest
        refine .inr ⟨String.ofList more, String.toList_inj.mp ?_⟩
        simp [hlonger, String.toList_append]

/-! ## Markers of metrics -/

/-- A log is listed by a file of its name. -/
theorem file_of_mem_listedLogs (h : log ∈ listedLogs disk run) :
    log ≠ "" ∧ log ++ ".yaml" ∈ registryFiles disk run := by
  unfold listedLogs at h
  unfold registryFiles
  cases hlist : disk.list (metricKeys run) with
  | error fault =>
    rw [hlist] at h
    cases h
  | ok entries =>
    rw [hlist] at h
    obtain ⟨name, hname, hlog⟩ := List.mem_filterMap.mp h
    rw [List.mem_mergeSort, List.mem_filter] at hname
    unfold logOfFile? at hlog
    dsimp only at hlog
    split at hlog
    · next hshape =>
      simp only [Bool.and_eq_true, Bool.not_eq_true', List.isEmpty_eq_false_iff, beq_iff_eq]
        at hshape
      cases hlog
      refine ⟨fun hempty => hshape.1 (String.ofList_eq_empty_iff.mp hempty), ?_⟩
      rw [← hshape.2]
      exact hname.1
    · cases hlog

theorem exists_of_mem_markersOfLog {markers : List (String × Value)}
    (hmarkers : markersOfLog disk run log = .ok markers) {marker : String × Value}
    (hmem : marker ∈ markers) : ∃ field ∈ listedFields disk run log,
      marker = (Key.metric log field, Marker.metric.value) := by
  unfold listedFields
  obtain ⟨value?, hread, hrest⟩ := bind_eq_ok.mp hmarkers
  rw [hread]
  split at hrest
  · next entries =>
    cases hrest
    obtain ⟨entry, hentry, rfl⟩ := List.mem_map.mp hmem
    exact ⟨entry.1, List.mem_map_of_mem hentry, rfl⟩
  · cases hrest
    cases hmem

theorem exists_registers_of_mem_metricMarkers {markers : List (String × Value)}
    (hmarkers : metricMarkers disk run = .ok markers) {marker : String × Value}
    (hmem : marker ∈ markers) :
    ∃ log field, Registers disk run log field ∧
      marker = (Key.metric log field, Marker.metric.value) := by
  obtain ⟨groups, hgroups, hpure⟩ := bind_eq_ok.mp hmarkers
  cases hpure
  obtain ⟨group, hgroup, hmem⟩ := List.mem_flatten.mp hmem
  obtain ⟨log, hlisted, hlog⟩ := exists_of_mem_mapM hgroups hgroup
  obtain ⟨hnamed, hfile⟩ := file_of_mem_listedLogs hlisted
  obtain ⟨field, hfield, rfl⟩ := exists_of_mem_markersOfLog hlog hmem
  exact ⟨log, field, ⟨hnamed, hfile, hfield⟩, rfl⟩

/-! ## Metadata that is kept -/

/-- A document has all that the metadata of its run spells.  Of values that metadata spells
under one key the last counts. -/
def KeepsMetadata (disk : Disk) (run : Path) (document : Document) : Prop :=
  ∀ fields, metadataFields? disk run metadataGroups = .ok (some fields) →
    ∀ key value, (SortedMap.ofList fields).get? key = some value → document.get? key = some value

/-- A run lists a field for a metric log under whose key its metadata has something else than
a marker. -/
structure Collides (disk : Disk) (run : Path) (log field : String) : Prop where
  registers : Registers disk run log field
  metadata : ∃ fields value, metadataFields? disk run metadataGroups = .ok (some fields) ∧
    (SortedMap.ofList fields).get? (Key.metric log field) = some value ∧
    value ≠ Marker.metric.value

/-- Only a log with the name of a group of metadata, or one below it, takes metadata away. -/
theorem Collides.isOf_log (h : Collides disk run log field) :
    ∃ group ∈ metadataGroups, IsOf group log := by
  obtain ⟨fields, value, hfields, hvalue, -⟩ := h.metadata
  obtain ⟨group, hgroup, hisOf⟩ :=
    isOf_of_metadata hfields _ (SortedMap.mem_of_get?_ofList hvalue)
  refine ⟨group, hgroup, isOf_metric ?_ hisOf⟩
  simp only [metadataGroups, List.mem_cons, List.not_mem_nil, or_false] at hgroup
  obtain rfl | rfl := hgroup <;> decide

theorem get?_scan (hscan : scan disk run = .ok (some document)) :
    ∃ fields metrics, metadataFields? disk run metadataGroups = .ok (some fields) ∧
      metricMarkers disk run = .ok metrics ∧ ∀ key value,
        (SortedMap.ofList fields).get? key = some value →
          document.get? key = ((SortedMap.ofList metrics).get? key).or (some value) := by
  obtain ⟨fields?, hfields, hrest⟩ := bind_eq_ok.mp hscan
  cases fields? with
  | none => cases hrest
  | some fields =>
    obtain ⟨metrics, hmetrics, hrest⟩ := bind_eq_ok.mp hrest
    obtain ⟨artifacts, hartifacts, hpure⟩ := bind_eq_ok.mp hrest
    cases hpure
    refine ⟨fields, metrics, hfields, hmetrics, fun key value hvalue => ?_⟩
    have hartifact : (SortedMap.ofList artifacts).get? key = none := by
      refine SortedMap.get?_eq_none_iff.mpr fun hkey => ?_
      obtain ⟨other, hother⟩ := SortedMap.mem_keys_ofList.mp hkey
      obtain ⟨kind, directory, heq⟩ := exists_of_mem_artifactMarkers hartifacts hother
      obtain ⟨group, hgroup, hisOf⟩ :=
        isOf_of_metadata hfields _ (SortedMap.mem_of_get?_ofList hvalue)
      rw [(Prod.mk.inj heq).1] at hisOf
      exact not_isOf_artifacts hgroup kind directory hisOf
    rw [SortedMap.get?_ofList_append, SortedMap.get?_ofList_append, hartifact, hvalue,
      Option.none_or]

/-- **The scan of a run keeps its metadata exactly if no listed metric has the key of some.** -/
theorem keepsMetadata_iff (hscan : scan disk run = .ok (some document)) :
    KeepsMetadata disk run document ↔ ∀ log field, ¬ Collides disk run log field := by
  obtain ⟨fields, metrics, hfields, hmetrics, hget⟩ := get?_scan hscan
  constructor
  · rintro hkeeps log field ⟨hregisters, others, value, hothers, hvalue, hdiffers⟩
    cases hfields.symm.trans hothers
    have hmarker : (SortedMap.ofList metrics).get? (Key.metric log field) =
        some Marker.metric.value :=
      SortedMap.get?_ofList_of_mem (mem_metricMarkers hmetrics hregisters) fun other hother =>
        value_of_mem_metricMarkers hmetrics hother
    have hkept := hkeeps fields hfields _ value hvalue
    rw [hget _ value hvalue, hmarker] at hkept
    exact hdiffers (Option.some.inj hkept).symm
  · intro hfree others hothers key value hvalue
    cases hfields.symm.trans hothers
    rw [hget key value hvalue]
    cases hmarker : (SortedMap.ofList metrics).get? key with
    | none => rfl
    | some marker =>
      obtain ⟨log, field, hregisters, heq⟩ := exists_registers_of_mem_metricMarkers hmetrics
        (SortedMap.mem_of_get?_ofList hmarker)
      obtain ⟨rfl, rfl⟩ := Prod.mk.inj heq
      by_contra hdiffers
      refine hfree log field ⟨hregisters, fields, value, hfields, hvalue, fun hsame => ?_⟩
      rw [hsame] at hdiffers
      exact hdiffers rfl

/-- The disk of one run, with a setting in its metadata and a field of a metric log that is
called like the metadata. -/
def oneSetting (setting field : String) : Disk :=
  ⟨⟨"/1"⟩, .folder [
    ("metadata", .folder [("config.yaml", .file (.text (setting ++ ": 1\n"))),
      ("info.yaml", .file (.text "status: COMPLETE\n"))]),
    ("metrics", .folder [
      (".keys", .folder [("config.yaml", .file (.text (field ++ ": 0\n")))])])]⟩

/-- A metric log called like the metadata does no harm as long as its fields are not. -/
theorem keepsMetadata_of_other_field :
    ∃ document, scan (oneSetting "seed" "loss") ⟨"/1"⟩ = .ok (some document) ∧
      Registers (oneSetting "seed" "loss") ⟨"/1"⟩ "config" "loss" ∧
      KeepsMetadata (oneSetting "seed" "loss") ⟨"/1"⟩ document := by
  obtain ⟨document, hdocument⟩ : ∃ document,
      (scan (oneSetting "seed" "loss") ⟨"/1"⟩).toOption.join = some document :=
    Option.isSome_iff_exists.mp (by decide +kernel)
  have hscan : scan (oneSetting "seed" "loss") ⟨"/1"⟩ = .ok (some document) :=
    eq_ok_of_toOption (Option.join_eq_some_iff.mp hdocument)
  refine ⟨document, hscan, by decide +kernel, (keepsMetadata_iff hscan).mpr ?_⟩
  rintro log field ⟨⟨-, hfile, hfield⟩, fields, value, hfields, hvalue, -⟩
  obtain rfl : log = "config" := by
    have hfiles : registryFiles (oneSetting "seed" "loss") ⟨"/1"⟩ = ["config" ++ ".yaml"] := by
      decide +kernel
    rw [hfiles, List.mem_singleton] at hfile
    exact (String.append_left_inj ".yaml").mp hfile
  obtain rfl : field = "loss" := by
    have hlisted : listedFields (oneSetting "seed" "loss") ⟨"/1"⟩ "config" = ["loss"] := by
      decide +kernel
    rw [hlisted, List.mem_singleton] at hfield
    exact hfield
  have hfree : ((metadataFields? (oneSetting "seed" "loss") ⟨"/1"⟩ metadataGroups).toOption.join.map
      fun fields => ((SortedMap.ofList fields).get? (Key.metric "config" "loss")).isNone) =
        some true := by decide +kernel
  rw [hfields] at hfree
  have hnone : ((SortedMap.ofList fields).get? (Key.metric "config" "loss")).isNone = true :=
    Option.some.inj hfree
  rw [hvalue] at hnone
  cases hnone

/-- With a field of the same name the marker takes the place of the setting. -/
theorem not_forall_keepsMetadata :
    ¬ ∀ disk run document, scan disk run = .ok (some document) →
      KeepsMetadata disk run document := by
  intro hall
  have hspelled : ((metadataFields? (oneSetting "seed" "seed") ⟨"/1"⟩
      metadataGroups).toOption.join.bind fun fields =>
        ((SortedMap.ofList fields).get? "config.seed").map Value.typeName) = some "int" := by
    decide +kernel
  have hscanned : ((scan (oneSetting "seed" "seed") ⟨"/1"⟩).toOption.join.map fun document =>
      (document.get? "config.seed").map Value.typeName) = some (some "str") := by
    decide +kernel
  obtain ⟨fields, hfields, hvalue⟩ := Option.bind_eq_some_iff.mp hspelled
  obtain ⟨value, hvalue, hint⟩ := Option.map_eq_some_iff.mp hvalue
  obtain ⟨document, hdocument, hstr⟩ := Option.map_eq_some_iff.mp hscanned
  have hkept := hall _ _ document (eq_ok_of_toOption (Option.join_eq_some_iff.mp hdocument)) fields
    (eq_ok_of_toOption (Option.join_eq_some_iff.mp hfields)) _ value hvalue
  rw [hkept, Option.map_some, hint] at hstr
  exact absurd hstr (by decide)

end Run

end Logbook
