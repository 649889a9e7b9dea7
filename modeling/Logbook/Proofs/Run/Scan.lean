import Logbook.Proofs.Outcome
import Logbook.Proofs.Value.Saved
import Logbook.Run.Scan

/-!
# Values in scanned documents

The document of a run has what its metadata spells, with nested maps flattened, and markers.
So there are no artifacts in it, and maps inside lists are in key order.
-/

namespace Logbook

/-- All values of a document are such as metadata can have. -/
def Document.Plain (document : Document) : Prop := ∀ field ∈ document.entries, field.2.Plain

namespace Run

open Outcome Value

/-! ## Metadata -/

mutual

theorem plain_leaves (key : String) (value : Value) (hplain : value.Plain) :
    ∀ field ∈ leaves key value, field.2.Plain := by
  cases value with
  | map entries => exact plain_leavesOfEntries key entries hplain.2
  | _ =>
    intro field hfield
    cases List.mem_singleton.mp hfield
    exact hplain

theorem plain_leavesOfEntries (key : String) (entries : List (String × Value))
    (hplain : PlainEntries entries) : ∀ field ∈ leavesOfEntries key entries, field.2.Plain := by
  cases entries with
  | nil => simp [leavesOfEntries]
  | cons entry entries =>
    intro field hfield
    rcases List.mem_append.mp hfield with hfirst | hmore
    · exact plain_leaves _ entry.2 hplain.1 field hfirst
    · exact plain_leavesOfEntries key entries hplain.2 field hmore

end

theorem plain_readYaml? {disk : Disk} {path : Path} {value : Value}
    (h : readYaml? disk path = .ok (some value)) : value.Plain := by
  unfold readYaml? at h
  split at h
  · cases h
  · cases h
  · next text _ =>
    cases hread : Yaml.read text with
    | none => simp [hread] at h
    | some tree =>
      have htree := plain_ofYaml tree
      rw [hread, Option.map_some] at h
      split at h
      · cases h
      · cases h
        exact ⟨List.Pairwise.nil, trivial⟩
      · next heq =>
        cases h
        exact Option.some.inj heq ▸ htree

theorem plain_metadataFields? {disk : Disk} {run : Path} {groups : List String}
    {fields : List (String × Value)}
    (h : metadataFields? disk run groups = .ok (some fields)) :
    ∀ field ∈ fields, field.2.Plain := by
  induction groups generalizing fields with
  | nil =>
    cases h
    simp
  | cons group groups ih =>
    obtain ⟨value?, hread, hrest⟩ := bind_eq_ok.mp h
    cases value? with
    | none => cases hrest
    | some value =>
      obtain ⟨more?, hmore, hpure⟩ := bind_eq_ok.mp hrest
      cases more? with
      | none => cases hpure
      | some more =>
        cases hpure
        intro field hfield
        rcases List.mem_append.mp hfield with hfirst | hlast
        · exact plain_leaves group value (plain_readYaml? hread) field hfirst
        · exact ih hmore field hlast

/-! ## Markers -/

theorem value_of_mem_markersOfLog {disk : Disk} {run : Path} {log : String}
    {markers : List (String × Value)} (h : markersOfLog disk run log = .ok markers)
    {marker : String × Value} (hmem : marker ∈ markers) : marker.2 = Marker.metric.value := by
  obtain ⟨value?, -, hrest⟩ := bind_eq_ok.mp h
  split at hrest
  · cases hrest
    obtain ⟨entry, -, rfl⟩ := List.mem_map.mp hmem
    rfl
  · cases hrest
    cases hmem

theorem value_of_mem_metricMarkers {disk : Disk} {run : Path} {markers : List (String × Value)}
    (h : metricMarkers disk run = .ok markers) {marker : String × Value} (hmem : marker ∈ markers) :
    marker.2 = Marker.metric.value := by
  obtain ⟨groups, hgroups, hrest⟩ := bind_eq_ok.mp h
  cases hrest
  obtain ⟨group, hgroup, hmem⟩ := List.mem_flatten.mp hmem
  obtain ⟨log, -, hlog⟩ := exists_of_mem_mapM hgroups hgroup
  exact value_of_mem_markersOfLog hlog hmem

theorem exists_of_mem_artifactMarkers {disk : Disk} {run : Path} {markers : List (String × Value)}
    (h : artifactMarkers disk run = .ok markers) {marker : String × Value}
    (hmem : marker ∈ markers) :
    ∃ kind directory, marker = (Key.artifacts kind directory, Marker.artifact.value) := by
  unfold artifactMarkers at h
  dsimp only at h
  split at h
  · split at h
    · obtain ⟨listing, -, hrest⟩ := bind_eq_ok.mp h
      cases hrest
      simp only [markersOfListing, List.mem_flatMap, List.mem_map] at hmem
      obtain ⟨⟨kind, directories⟩, -, directory, -, rfl⟩ := hmem
      exact ⟨kind, directory, rfl⟩
    · cases h
  · cases h
    cases hmem

/-- **What is scanned can be saved**: there are no artifacts in a document. -/
theorem plain_scan {disk : Disk} {run : Path} {document : Document}
    (h : scan disk run = .ok (some document)) : document.Plain := by
  obtain ⟨fields?, hmetadata, hrest⟩ := bind_eq_ok.mp h
  cases fields? with
  | none => cases hrest
  | some fields =>
    obtain ⟨metrics, hmetrics, hrest⟩ := bind_eq_ok.mp hrest
    obtain ⟨artifacts, hartifacts, hpure⟩ := bind_eq_ok.mp hrest
    cases hpure
    intro field hfield
    have hmem := SortedMap.mem_of_mem_ofList hfield
    rcases List.mem_append.mp hmem with hmem | hmem
    · rcases List.mem_append.mp hmem with hmem | hmem
      · exact plain_metadataFields? hmetadata field hmem
      · rw [value_of_mem_metricMarkers hmetrics hmem]
        exact trivial
    · obtain ⟨kind, directory, rfl⟩ := exists_of_mem_artifactMarkers hartifacts hmem
      exact trivial

end Run

end Logbook
