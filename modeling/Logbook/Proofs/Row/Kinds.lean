import Logbook.Proofs.Key
import Logbook.Proofs.Row.Cells
import Logbook.Proofs.Row.Series
import Logbook.Store.FieldKind

/-!
# The field table and the rows

Whether a field is loaded on demand is decided twice: for the field table of a store by
`FieldKind.of`, and for the slots of a row by `Origin.of`.  Both look at the key and the value,
but not in the same way, and they agree exactly on all fields but two sorts that `Disputed`
names (`Row.agreesOnKind_iff`).  An artifact marker under a key without a directory is an
artifact for the table only, and a metric marker under a key of artifacts a metric for the
table only; the row takes both for values.

## Strategy

* `Origin.fieldKind` is the kind that a field of an origin should have in the table, and the
  table says it exactly if the field is not disputed (`Origin.fieldKind_of_iff`), by cases on
  the marker and the shape of the key.
* The slot of a row follows the origin, so the row can be asked for the kind instead
  (`Row.tellsKind_ofDocument`).  A metric is read as a list and a group of artifacts as a map,
  so a field that is loaded never answers its marker, not even if its file says so.
-/

namespace Logbook

variable {key : String} {value : Value}

/-! ## The two decisions -/

/-- The kind of a field that comes from there. -/
def Origin.fieldKind (value : Value) : Origin → FieldKind
  | document => .stored value.typeName
  | log _ => .metric
  | artifacts _ => .artifact

/-- The field table takes the field for one that is loaded, and the row does not. -/
inductive Disputed : String → Value → Prop where
  /-- The key has a type of artifacts and no directory. -/
  | noDirectory (kind : String) (hkind : '.' ∉ kind.toList) :
      Disputed ("artifact." ++ kind) Marker.artifact.value
  /-- The key is one of artifacts, and the marker that of metrics. -/
  | metricMarker (kind directory : String) :
      Disputed (Key.artifacts kind directory) Marker.metric.value

theorem Key.not_isSearchable_of_artifact (rest : String) :
    isSearchable ("artifact." ++ rest) = false := by
  have hhead : ("artifact." ++ rest).toList.head? = some 'a' := by simp [String.toList_append]
  rw [Bool.eq_false_iff, isSearchable, ne_eq, List.any_eq_true]
  rintro ⟨beginning, hmem, hstarts⟩
  obtain ⟨other, hother⟩ := startsWith_iff.mp hstarts
  simp only [searchableBeginnings, List.mem_cons, List.not_mem_nil, or_false] at hmem
  rw [hother] at hhead
  obtain rfl | rfl := hmem <;> simp [String.toList_append] at hhead

/-- A key with a type of artifacts is one of artifacts. -/
theorem Key.exists_of_artifactType? {kind : String} (h : artifactType? key = some kind) :
    ∃ kind directory, key = artifacts kind directory := by
  obtain ⟨rest, hrest, hcut⟩ := Option.bind_eq_some_iff.mp h
  obtain rfl := after?_eq_some_iff.mp hrest
  have hdot : '.' ∈ rest.toList := by
    by_contra hdot
    rw [cut?_eq_none_iff.mpr hdot] at hcut
    cases hcut
  obtain ⟨kind, directory, hrest⟩ := List.append_of_mem hdot
  refine ⟨String.ofList kind, String.ofList directory, String.toList_inj.mp ?_⟩
  simp [artifacts, String.toList_append, hrest]

theorem Value.eq_marker_of_toText? {marker : Marker} (h : value.toText? = some marker.text) :
    value = marker.value := by
  cases value <;> cases h
  rfl

theorem FieldKind.typeName_of_stored {typeName : String} (h : of key value = .stored typeName) :
    typeName = value.typeName := by
  unfold of at h
  dsimp only at h
  split_ifs at h
  exact (stored.inj h).symm

theorem Origin.typeName_of_stored {origin : Origin} {typeName : String}
    (h : origin.fieldKind value = .stored typeName) : typeName = value.typeName := by
  cases origin <;> cases h
  rfl

theorem Disputed.ne (h : Disputed key value) :
    FieldKind.of key value ≠ (Origin.of key value).fieldKind value := by
  cases h with
  | noDirectory kind hkind =>
    have htype := (Key.artifactType?_append kind).mpr hkind
    have hstarts : Key.startsWith "artifact." ("artifact." ++ kind) = true :=
      Key.startsWith_iff.mpr ⟨kind, rfl⟩
    simp [FieldKind.of, Origin.of, Marker.value, Value.toText?, Marker.text, htype, hstarts,
      Origin.fieldKind]
  | metricMarker kind directory =>
    have htype := Key.artifactType?_artifacts_eq kind directory
    have hsearch : Key.isSearchable (Key.artifacts kind directory) = false := by
      rw [Key.artifacts, String.append_assoc, String.append_assoc]
      exact Key.not_isSearchable_of_artifact _
    simp [FieldKind.of, Origin.of, Marker.value, Value.toText?, Marker.text, htype, hsearch,
      Origin.fieldKind]

theorem Origin.fieldKind_of (hfree : ¬ Disputed key value) :
    FieldKind.of key value = (Origin.of key value).fieldKind value := by
  unfold FieldKind.of Origin.of
  cases htext : value.toText? with
  | none => rfl
  | some text =>
    cases htype : Key.artifactType? key with
    | none =>
      -- Without a type the key is none of artifacts, or has no directory.
      have hstarts : text = Marker.artifact.text → Key.startsWith "artifact." key = false := by
        rintro rfl
        rw [Bool.eq_false_iff]
        intro hstarts
        obtain ⟨kind, rfl⟩ := Key.startsWith_iff.mp hstarts
        refine hfree ?_
        rw [Value.eq_marker_of_toText? htext]
        exact .noDirectory kind ((Key.artifactType?_append kind).mp htype)
      by_cases hartifact : text = Marker.artifact.text
      · subst hartifact
        simp [hstarts rfl, Marker.text, fieldKind]
      · by_cases hmetric : text = Marker.metric.text ∧ Key.isSearchable key = false
        · obtain ⟨rfl, hsearch⟩ := hmetric
          simp [hartifact, hsearch, fieldKind]
        · simp [hartifact, hmetric, fieldKind]
    | some kind =>
      obtain ⟨type, directory, rfl⟩ := Key.exists_of_artifactType? htype
      have hmetric : text ≠ Marker.metric.text := by
        rintro rfl
        refine hfree ?_
        rw [Value.eq_marker_of_toText? htext]
        exact .metricMarker type directory
      have hstarts : Key.startsWith "artifact." (Key.artifacts type directory) = true :=
        Key.startsWith_iff.mpr ⟨_, by rw [Key.artifacts, String.append_assoc, String.append_assoc]⟩
      by_cases hartifact : text = Marker.artifact.text <;>
        simp [hartifact, hmetric, hstarts, fieldKind]

/-! ## Reading -/

theorem MetricLog.exists_list_of_seriesOf {disk : Disk} {path : Path} {log : String}
    (h : seriesOf disk path log key = .ok value) : ∃ items, value = .list items := by
  unfold seriesOf at h
  split at h
  · cases h
  · cases h
  · obtain ⟨lines, -, hlist⟩ := Outcome.bind_eq_ok.mp h
    split at hlist
    · cases hlist
    · exact ⟨_, (Except.ok.inj hlist).symm⟩

theorem Listing.exists_map_of_groupOf {disk : Disk} {run : Path} {kind : String}
    {codec : Option Codec} (h : groupOf disk run kind codec key = .ok value) :
    ∃ entries, value = .map entries := by
  unfold groupOf at h
  split at h
  · cases h
  · split at h
    · cases h
    · obtain ⟨listing, -, hgroup⟩ := Outcome.bind_eq_ok.mp h
      dsimp only at hgroup
      split at hgroup
      · exact ⟨_, (Except.ok.inj hgroup).symm⟩
      · cases hgroup

/-- A field that is loaded never answers with the marker that stands for it. -/
theorem Origin.read_ne_stored (h : Origin.of key value ≠ .document) (disk : Disk) (run : Path)
    (codecs : Codecs) : (Origin.of key value).read disk run codecs key value ≠ .ok value := by
  have htext : value.toText? ≠ none := by
    intro hnone
    rw [Origin.of, hnone] at h
    exact h rfl
  intro hread
  cases horigin : Origin.of key value with
  | document => exact h horigin
  | log name =>
    rw [horigin] at hread
    obtain ⟨items, rfl⟩ := MetricLog.exists_list_of_seriesOf hread
    exact htext rfl
  | artifacts kind =>
    rw [horigin] at hread
    obtain ⟨entries, rfl⟩ := Listing.exists_map_of_groupOf hread
    exact htext rfl

/-! ## The row -/

namespace Row

/-- A field is read as it is stored, whatever the disk holds, and nothing is loaded. -/
def GivesStored (row : Row) (shelf : Shelf) (key : String) (value : Value) : Prop :=
  ∀ disk, row.get? key disk shelf = (.ok (some value), shelf)

/-- What the field table says of a field, its row does: a metric has the slot of a metric, an
artifact that of artifacts, and a stored field is read as it is stored. -/
structure AgreesOnKind (row : Row) (shelf : Shelf) (key : String) (value : Value) : Prop where
  metric : FieldKind.of key value = .metric ↔
    ∃ loader, row.slots.get? key = some (.metric loader)
  artifact : FieldKind.of key value = .artifact ↔
    ∃ loader, row.slots.get? key = some (.artifacts loader)
  stored : (∃ typeName, FieldKind.of key value = .stored typeName) ↔
    row.GivesStored shelf key value

variable {document : Document}

/-- The kind of the origin is what the row does. -/
theorem tellsKind_ofDocument (hget : document.get? key = some value) (id : RunId) (run : Path)
    (codecs : Codecs) (shelf : Shelf) :
    let made := ofDocument id document run codecs shelf
    let kind := (Origin.of key value).fieldKind value
    (kind = .metric ↔ ∃ loader, made.1.slots.get? key = some (.metric loader)) ∧
      (kind = .artifact ↔ ∃ loader, made.1.slots.get? key = some (.artifacts loader)) ∧
      ((∃ typeName, kind = .stored typeName) ↔ made.1.GivesStored made.2 key value) := by
  intro made kind
  obtain ⟨slot, hslots, hserves⟩ :=
    serves_ofDocument ⟨run, .folder []⟩ id document run codecs shelf
  have hslot : made.1.slots.get? key = some (slot key value) := by
    rw [hslots, SortedMap.get?_mapValues, hget]
    rfl
  have hfield := hserves key value (SortedMap.mem_of_get? hget)
  -- A field that is loaded does not answer with what is stored.
  have hloaded : Origin.of key value ≠ .document → ¬ made.1.GivesStored made.2 key value := by
    intro horigin hgives
    have hread : (made.1.get? key ⟨run, .folder []⟩ made.2).1 =
        document.readKey ⟨run, .folder []⟩ run codecs key :=
      get?_ofDocument _ id document run codecs shelf key
    rw [hgives, Document.readKey, hget] at hread
    obtain ⟨given, hgiven, hsome⟩ := Outcome.bind_eq_ok.mp hread.symm
    cases hsome
    exact Origin.read_ne_stored horigin _ run codecs hgiven
  rw [hslot]
  simp only [kind]
  cases horigin : Origin.of key value with
  | document =>
    rw [horigin] at hfield
    generalize slot key value = held at hfield hslot
    cases hfield
    refine ⟨by simp [Origin.fieldKind], by simp [Origin.fieldKind], fun _ disk => ?_,
      fun _ => ⟨_, rfl⟩⟩
    rw [get?_of_some hslot]
    rfl
  | log name =>
    rw [horigin] at hfield
    generalize slot key value = held at hfield hslot
    cases hfield
    simpa [Origin.fieldKind] using hloaded (by simp [horigin])
  | artifacts type =>
    rw [horigin] at hfield
    generalize slot key value = held at hfield hslot
    cases hfield
    simpa [Origin.fieldKind] using hloaded (by simp [horigin])

/-- What the table says of a disputed field, the row does not. -/
theorem not_agreesOnKind (hget : document.get? key = some value) (h : Disputed key value)
    (id : RunId) (run : Path) (codecs : Codecs) (shelf : Shelf) :
    let made := ofDocument id document run codecs shelf
    ¬ AgreesOnKind made.1 made.2 key value := by
  intro made hagrees
  obtain ⟨hmetric, hartifact, hstored⟩ := tellsKind_ofDocument hget id run codecs shelf
  refine h.ne ?_
  cases horigin : (Origin.of key value).fieldKind value with
  | metric => exact hagrees.metric.mpr (hmetric.mp horigin)
  | artifact => exact hagrees.artifact.mpr (hartifact.mp horigin)
  | stored typeName =>
    obtain ⟨other, hother⟩ := hagrees.stored.mpr (hstored.mp ⟨_, horigin⟩)
    rw [hother, FieldKind.typeName_of_stored hother, Origin.typeName_of_stored horigin]

/-- **The field table and the row agree on a field of a document exactly if the field is not
disputed.** -/
theorem agreesOnKind_iff (hget : document.get? key = some value) (id : RunId) (run : Path)
    (codecs : Codecs) (shelf : Shelf) :
    let made := ofDocument id document run codecs shelf
    AgreesOnKind made.1 made.2 key value ↔ ¬ Disputed key value := by
  intro made
  constructor
  · intro hagrees hdisputed
    exact not_agreesOnKind hget hdisputed id run codecs shelf hagrees
  · intro hfree
    obtain ⟨hmetric, hartifact, hstored⟩ := tellsKind_ofDocument hget id run codecs shelf
    have hkind := Origin.fieldKind_of hfree
    exact ⟨hkind ▸ hmetric, hkind ▸ hartifact, hkind ▸ hstored⟩

/-- Metrics and artifacts have their own keys here, and metadata that spells a marker is a text
like any other. -/
theorem agreesOnKind_of_markers :
    let document := SortedMap.ofList [("artifact.text.", Marker.artifact.value),
      ("config.note", Marker.metric.value), ("train.loss", Marker.metric.value)]
    let made := ofDocument 1 document ⟨"/1"⟩ .standard {}
    document.get? "config.note" = some Marker.metric.value ∧
      AgreesOnKind made.1 made.2 "config.note" Marker.metric.value ∧
      AgreesOnKind made.1 made.2 "train.loss" Marker.metric.value ∧
      AgreesOnKind made.1 made.2 "artifact.text." Marker.artifact.value := by
  intro document made
  have hnote : document.get? "config.note" = some Marker.metric.value := rfl
  have hloss : document.get? "train.loss" = some Marker.metric.value := rfl
  have htext : document.get? "artifact.text." = some Marker.artifact.value := rfl
  have hfree (key : String) (value : Value)
      (hkind : FieldKind.of key value = (Origin.of key value).fieldKind value) :
      ¬ Disputed key value := fun hdisputed => hdisputed.ne hkind
  exact ⟨hnote, (agreesOnKind_iff hnote 1 ⟨"/1"⟩ .standard {}).mpr (hfree _ _ (by decide +kernel)),
    (agreesOnKind_iff hloss 1 ⟨"/1"⟩ .standard {}).mpr (hfree _ _ (by decide +kernel)),
    (agreesOnKind_iff htext 1 ⟨"/1"⟩ .standard {}).mpr (hfree _ _ (by decide +kernel))⟩

/-- With an artifact marker under a key without a directory the table speaks of artifacts that
the row does not have. -/
theorem not_forall_agreesOnKind :
    ¬ ∀ (document : Document) (key : String) (value : Value), document.get? key = some value →
      ∀ id run codecs shelf,
        let made := ofDocument id document run codecs shelf
        AgreesOnKind made.1 made.2 key value := by
  intro hall
  have hget : (SortedMap.ofList [("artifact.text", Marker.artifact.value)]).get? "artifact.text" =
      some Marker.artifact.value := rfl
  exact not_agreesOnKind hget (.noDirectory "text" (by decide)) 1 ⟨"/1"⟩ .standard {}
    (hall _ _ _ hget 1 ⟨"/1"⟩ .standard {})

end Row

end Logbook
