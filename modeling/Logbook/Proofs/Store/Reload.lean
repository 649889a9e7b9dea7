import Logbook.Proofs.Store.Snapshot

/-!
# Stores that are saved and loaded

A store that is loaded from its snapshot has the documents as they are saved, and its field
table is the one that was saved, keys that no document has any more included
(`Store.load_of_save`).  Saved once more it gives the same text.

## Strategy

Loading inserts the documents, which fills a field table from values that saving may have
changed, and lays the saved table over it.  The saved table wins as long as it names every key
of a document, and it is read as it was as long as each of its kinds is the one that its text
stands for.  Every store keeps both (`consistent_of_obtained`): an insertion enters the keys of
its document, and no type is named like a kind that is loaded on demand.
-/

namespace Logbook

namespace FieldKind

theorem ofText_text_ofText (words : String) : ofText (ofText words).text = ofText words := by
  by_cases hmetric : words = metric.text
  · subst hmetric
    rfl
  · by_cases hartifact : words = artifact.text
    · subst hartifact
      rfl
    · have hstored : ofText words = stored words := by simp [ofText, hmetric, hartifact]
      rw [hstored]
      exact hstored

theorem ofText_text_of (key : String) (value : Value) :
    ofText (of key value).text = of key value := by
  unfold of
  dsimp only
  split_ifs
  · rfl
  · rfl
  · cases value <;> rfl

end FieldKind

namespace Store

/-- What is true of the parts of a store together. -/
structure Consistent (store : Store) : Prop where
  ordered : ∀ run ∈ store.runs.entries, run.2.Ordered
  covered : ∀ run ∈ store.runs.entries, ∀ key ∈ run.2.keys, key ∈ store.fields.keys
  named : ∀ field ∈ store.fields.entries, FieldKind.ofText field.2.text = field.2

/-- The stores that come about: new ones, those from any snapshot that can be loaded, and what
insertions and clearing make of them. -/
inductive Obtained : Store → Prop
  | empty (source : Path) (now : Timestamp) : Obtained (Store.empty source now)
  | load {path : Path} {disk : Disk} {store : Store} (hload : load path disk = .ok store) :
      Obtained store
  | insert {store : Store} (h : Obtained store) (id : RunId) {document : Document}
      (hordered : document.Ordered) : Obtained (store.insert id document)
  | clear {store : Store} (h : Obtained store) (now : Timestamp) : Obtained (store.clear now)

variable {store : Store}

/-! ## The field table -/

theorem fields_insert (store : Store) (id : RunId) (document : Document) :
    (store.insert id document).fields =
      (document.entries.map fun field => (field.1, FieldKind.of field.1 field.2)).foldl
        (fun fields field => fields.insert field.1 field.2) store.fields := by
  rw [List.foldl_map]
  rfl

theorem mem_keys_fields_insert {id : RunId} {document : Document} {key : String} :
    key ∈ (store.insert id document).fields.keys ↔
      key ∈ document.keys ∨ key ∈ store.fields.keys := by
  have hkeys : key ∈ document.keys ↔ ∃ value, (key, value) ∈ document.entries := SortedMap.mem_keys
  rw [fields_insert, SortedMap.mem_keys_foldl_insert, hkeys]
  simp

theorem mem_keys_fields_foldl_insert {runs : List (RunId × Document)} {key : String} :
    key ∈ (runs.foldl (fun store run => store.insert run.1 run.2) store).fields.keys ↔
      (∃ run ∈ runs, key ∈ run.2.keys) ∨ key ∈ store.fields.keys := by
  induction runs generalizing store with
  | nil => simp
  | cons run runs ih =>
    rw [List.foldl_cons, ih, mem_keys_fields_insert]
    rw [← or_assoc, List.exists_mem_cons_iff, or_comm (a := key ∈ run.2.keys)]

/-! ## Stores that come about -/

theorem consistent_empty (source : Path) (now : Timestamp) : (empty source now).Consistent where
  ordered _ hrun := nomatch hrun
  covered _ hrun := nomatch hrun
  named _ hfield := nomatch hfield

theorem mem_runs_insert {id : RunId} {document : Document} {run : RunId × Document}
    (hrun : run ∈ (store.insert id document).runs.entries) :
    run = (id, document) ∨ run ∈ store.runs.entries :=
  ((SortedMap.mem_insertEntry_iff store.runs.sorted).mp hrun).imp_right And.right

theorem Consistent.insert (h : store.Consistent) (id : RunId) {document : Document}
    (hordered : document.Ordered) : (store.insert id document).Consistent where
  ordered run hrun := by
    rcases mem_runs_insert hrun with rfl | hmem
    · exact hordered
    · exact h.ordered run hmem
  covered run hrun key hkey := by
    refine mem_keys_fields_insert.mpr ?_
    rcases mem_runs_insert hrun with rfl | hmem
    · exact .inl hkey
    · exact .inr (h.covered run hmem key hkey)
  named field hfield := by
    rw [fields_insert] at hfield
    rcases SortedMap.mem_or_mem_of_foldl_insert hfield with hnew | hold
    · obtain ⟨entry, -, rfl⟩ := List.mem_map.mp hnew
      exact FieldKind.ofText_text_of entry.1 entry.2
    · exact h.named field hold

theorem Consistent.foldl_insert {runs : List (RunId × Document)} (h : store.Consistent)
    (hordered : ∀ run ∈ runs, run.2.Ordered) :
    (runs.foldl (fun store run => store.insert run.1 run.2) store).Consistent := by
  induction runs generalizing store with
  | nil => exact h
  | cons run runs ih =>
    obtain ⟨hrun, hruns⟩ := List.forall_mem_cons.mp hordered
    exact ih (h.insert run.1 hrun) hruns

theorem consistent_ofParts (header : Header) {runs : List (RunId × Document)}
    {fields : List (String × FieldKind)} (hruns : ∀ run ∈ runs, run.2.Ordered)
    (hfields : ∀ field ∈ fields, FieldKind.ofText field.2.text = field.2) :
    (ofParts header runs fields).Consistent := by
  have hinserted : ((SortedMap.ofList runs).entries.foldl
      (fun store run => store.insert run.1 run.2)
      (empty header.source header.createdAt)).Consistent :=
    (consistent_empty _ _).foldl_insert fun run hrun => hruns run (SortedMap.mem_of_mem_ofList hrun)
  refine ⟨hinserted.ordered, fun run hrun key hkey => ?_, fun field hfield => ?_⟩
  · exact SortedMap.mem_keys_foldl_insert.mpr (.inr (hinserted.covered run hrun key hkey))
  · rcases SortedMap.mem_or_mem_of_foldl_insert hfield with hnew | hold
    · exact hfields field hnew
    · exact hinserted.named field hold

theorem ordered_ofList {entries : List (String × Value)} (h : Value.OrderedEntries entries) :
    Document.Ordered (SortedMap.ofList entries) := fun field hfield =>
  Value.orderedEntries_iff.mp h field (SortedMap.mem_of_mem_ofList hfield)

theorem ordered_of_run? {member : List Json.Piece × Json.Draft} {run : RunId × Document}
    (h : run? member = some run) : run.2.Ordered := by
  obtain ⟨id, -, h⟩ := Option.bind_eq_some_iff.mp h
  split at h
  · obtain ⟨members, -, h⟩ := Option.bind_eq_some_iff.mp h
    cases h
    exact ordered_ofList (Value.orderedEntries_ofJsonMembers members)
  · cases h

theorem named_of_field? {member : List Json.Piece × Json.Draft} {field : String × FieldKind}
    (h : field? member = some field) : FieldKind.ofText field.2.text = field.2 := by
  unfold field? at h
  split at h
  · obtain ⟨key, -, h⟩ := Option.bind_eq_some_iff.mp h
    obtain ⟨words, -, h⟩ := Option.bind_eq_some_iff.mp h
    cases h
    exact FieldKind.ofText_text_ofText words
  · cases h

theorem consistent_of_obtained (h : Obtained store) : store.Consistent := by
  induction h with
  | empty source now => exact consistent_empty source now
  | load hload =>
    obtain ⟨header, runs, fields, runDrafts, fieldDrafts, rfl, hruns, hfields⟩ :=
      exists_ofParts_of_load hload
    refine consistent_ofParts header (fun run hrun => ?_) fun field hfield => ?_
    · obtain ⟨member, -, hmember⟩ := Outcome.exists_of_mem_mapM? hruns hrun
      exact ordered_of_run? hmember
    · obtain ⟨member, -, hmember⟩ := Outcome.exists_of_mem_mapM? hfields hfield
      exact named_of_field? hmember
  | insert _ id hordered ih => exact ih.insert id hordered
  | clear _ now => exact consistent_empty _ now

/-! ## What loading gives -/

theorem header_foldl_insert (runs : List (RunId × Document)) (store : Store) :
    (runs.foldl (fun store run => store.insert run.1 run.2) store).header = store.header := by
  induction runs generalizing store with
  | nil => rfl
  | cons run runs ih => exact ih (store.insert run.1 run.2)

theorem header_reloaded (store : Store) : store.reloaded.header = store.header :=
  header_foldl_insert _ _

theorem keys_reloaded (document : Document) : document.reloaded.keys = document.keys := by
  simp [Document.reloaded, SortedMap.keys]

theorem fields_reloaded (h : store.Consistent) : store.reloaded.fields = store.fields := by
  have hnamed : (store.fields.entries.map fun field => (field.1, FieldKind.ofText field.2.text)) =
      store.fields.entries := by
    refine (List.map_congr_left fun field hfield => ?_).trans (List.map_id _)
    exact Prod.ext rfl (h.named field hfield)
  unfold reloaded ofParts
  dsimp only
  rw [hnamed, SortedMap.ofList_entries]
  refine SortedMap.foldl_insert_entries fun key hkey => ?_
  obtain ⟨run, hrun, hkey⟩ | hnone := mem_keys_fields_foldl_insert.mp hkey
  · obtain ⟨original, horiginal, rfl⟩ := List.mem_map.mp hrun
    rw [keys_reloaded] at hkey
    exact h.covered original horiginal key hkey
  · cases hnone

theorem documentMembers_asSaved (document : Document) :
    documentMembers document.asSaved = documentMembers document := by
  unfold documentMembers Document.asSaved
  rw [SortedMap.entries_mapValues, List.map_map]
  exact List.map_congr_left fun field _ => Prod.ext rfl (Value.toJson_asSaved field.2)

theorem toText_reloaded (h : store.Consistent)
    (hfaithful : ∀ run ∈ store.runs.entries, run.2.Faithful) :
    store.reloaded.toText = store.toText := by
  have hjson : store.reloaded.toJson = store.toJson := by
    unfold toJson
    rw [header_reloaded, runs_reloaded, reloadRuns_of_faithful h.ordered hfaithful,
      fields_reloaded h, SortedMap.entries_mapValues, List.map_map]
    simp only [Function.comp_def, documentMembers_asSaved]
  rw [toText, toText, hjson]

/-- **What is saved is loaded again**: the header, the documents as they are saved and the whole
field table; and the store that is loaded is saved as the same text. -/
theorem load_of_save (hobtained : Obtained store) {path : Path} {disk written : Disk}
    (hread : Json.read store.toText = some store.toJson)
    (hsave : store.save path disk = .ok written) :
    ∃ loaded, load path written = .ok loaded ∧ loaded.header = store.header ∧
      loaded.runs = (store.runs.mapValues fun _ document => document.asSaved) ∧
      loaded.fields = store.fields ∧
      ∀ other disk, loaded.save other disk = store.save other disk := by
  have hconsistent := consistent_of_obtained hobtained
  have hruns := read_toText_iff.mp hread
  have hfaithful : ∀ run ∈ store.runs.entries, run.2.Faithful := fun run hrun => (hruns run hrun).2
  have hloads : ∀ run ∈ store.runs.entries, run.2.Loads := fun run hrun =>
    (hfaithful run hrun).loads (hruns run hrun).1
  refine ⟨store.reloaded, ?_, header_reloaded store,
    (runs_reloaded store).trans (reloadRuns_of_faithful hconsistent.ordered hfaithful),
    fields_reloaded hconsistent, fun other disk => ?_⟩
  · rw [load_of_readText (readText_of_save hsave), if_pos hloads]
  · rw [save, save, toText_reloaded hconsistent hfaithful]

/-- A key of which no document has a value any more is in the loaded table, and a field keeps
the kind of the value that it had before it was saved. -/
theorem load_of_save_replaced_document :
    let store := ((Store.empty ⟨"/runs"⟩ .epoch).insert 1
      (SortedMap.ofList [("config.old", .int 1)])).insert 1
      (SortedMap.ofList [("config.lr", .list [.float (.nan false), .int 1, .float (.ofInt 1)]),
        ("config.model", .artifact ⟨"model", "text", ⟨"/runs/1/model.txt"⟩, .text⟩)])
    ∃ written loaded, store.save ⟨"/runs.json"⟩ (.empty ⟨""⟩) = .ok written ∧
      load ⟨"/runs.json"⟩ written = .ok loaded ∧
      loaded.fields.entries = [("config.lr", .stored "list"), ("config.model", .stored "artifact"),
        ("config.old", .stored "int")] ∧
      loaded.get? 1 = some (SortedMap.ofList [
        ("config.lr", .list [.null, .int 1, .float (.ofInt 1)]),
        ("config.model", .str "/runs/1/model.txt")]) ∧
      ∀ other disk, loaded.save other disk = store.save other disk := by
  intro store
  have hobtained : Obtained store := by
    refine ((Obtained.empty _ _).insert 1 ?_).insert 1 ?_
    · exact ordered_ofList (by simp [Value.OrderedEntries, Value.Ordered])
    · exact ordered_ofList (by simp [Value.OrderedEntries, Value.OrderedItems, Value.Ordered])
  have hread : Json.read store.toText = some store.toJson :=
    read_toText_iff.mpr (by decide +kernel)
  obtain ⟨written, hsave⟩ : ∃ written, store.save ⟨"/runs.json"⟩ (.empty ⟨""⟩) = .ok written :=
    ⟨_, rfl⟩
  obtain ⟨loaded, hload, -, hruns, hfields, hagain⟩ := load_of_save hobtained hread hsave
  refine ⟨written, loaded, hsave, hload, ?_, ?_, hagain⟩
  · rw [hfields]
    decide +kernel
  · show loaded.runs.get? 1 = _
    have hone : (Binary64.ofInt 1).isFinite = true := by decide +kernel
    have hnan : (Binary64.nan false).isFinite = false := rfl
    have hget : store.runs.get? 1 = some (SortedMap.ofList
      [("config.lr", .list [.float (.nan false), .int 1, .float (.ofInt 1)]),
        ("config.model", .artifact ⟨"model", "text", ⟨"/runs/1/model.txt"⟩, .text⟩)]) := rfl
    rw [hruns, SortedMap.get?_mapValues, hget, Option.map_some, Document.asSaved,
      SortedMap.mapValues_ofList]
    simp [Value.asSaved, Value.itemsAsSaved, hone, hnan]

end Store

end Logbook
