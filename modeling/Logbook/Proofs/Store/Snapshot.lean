import Logbook.Proofs.Disk.Files
import Logbook.Proofs.Run.Scan
import Logbook.Proofs.Store.Search
import Logbook.Proofs.Store.Timestamp

/-!
# What a snapshot keeps

The text of a store is read as the store that is inserted document by document, each with its
values as they are read from their texts (`Store.ofText?_toText`).  The text cannot be read if a
value in a document is nested deeper than a snapshot is read, or if the digits of a double are
read as a number that is too large.  The text stands for the very document that was written if
moreover each double is what its digits are read as (`Store.read_toText_iff`), and then the
values are read as they are saved (`Document.reloaded_of_isFaithful`).
-/

namespace Logbook

/-- The document as it is saved. -/
def Document.asSaved (document : Document) : Document :=
  document.mapValues fun _ value => value.asSaved

/-- A document whose values can be built. -/
def Document.Ordered (document : Document) : Prop := ∀ field ∈ document.entries, field.2.Ordered

theorem Document.Plain.ordered {document : Document} (h : document.Plain) : document.Ordered :=
  fun field hfield => Value.ordered_of_plain field.2 (h field hfield)

/-- A document whose values are not nested deeper than a snapshot is read. -/
def Document.Shallow (document : Document) : Prop :=
  ∀ field ∈ document.entries, field.2.toJson.nesting ≤ Store.documentDepth

instance (document : Document) : Decidable document.Shallow :=
  inferInstanceAs (Decidable (∀ field ∈ document.entries, _))

/-- The document as it is read from a snapshot. -/
def Document.reloaded (document : Document) : Document :=
  document.mapValues fun _ value => value.reloaded

/-- A document that can be read from a snapshot: it is not nested too deep, and no digits of
doubles are read as a number that is too large. -/
def Document.Loads (document : Document) : Prop :=
  document.Shallow ∧ ∀ field ∈ document.entries, field.2.toJson.isLegible = true

instance (document : Document) : Decidable document.Loads :=
  inferInstanceAs (Decidable (_ ∧ ∀ field ∈ document.entries, _))

/-- A document whose doubles are read from a snapshot as themselves. -/
def Document.Faithful (document : Document) : Prop :=
  ∀ field ∈ document.entries, field.2.toJson.isFaithful = true

instance (document : Document) : Decidable document.Faithful :=
  inferInstanceAs (Decidable (∀ field ∈ document.entries, _))

theorem Document.Faithful.reloaded_eq {document : Document} (h : document.Faithful)
    (hordered : document.Ordered) : document.reloaded = document.asSaved := by
  refine SortedMap.ext ?_
  rw [reloaded, asSaved, SortedMap.entries_mapValues, SortedMap.entries_mapValues]
  refine List.map_congr_left fun field hfield => Prod.ext rfl ?_
  exact Value.reloaded_of_isFaithful (hordered field hfield) (h field hfield)

theorem Document.reloaded_asSaved (document : Document) :
    document.asSaved.reloaded = document.reloaded := by
  refine SortedMap.ext ?_
  simp only [reloaded, asSaved, SortedMap.entries_mapValues, List.map_map]
  exact List.map_congr_left fun field _ => Prod.ext rfl (Value.reloaded_asSaved field.2)

theorem Document.Faithful.loads {document : Document} (h : document.Faithful)
    (hshallow : document.Shallow) : document.Loads :=
  ⟨hshallow, fun field hfield => ((Json.isFaithful_iff _).mp (h field hfield)).1⟩

namespace Json

theorem draftOfMembers_eq_map (members : List (String × Json)) :
    draftOfMembers members = members.map fun member => (pieces member.1, member.2.draft) := by
  induction members with
  | nil => rfl
  | cons member members ih => rw [draftOfMembers, ih, List.map_cons]

theorem exactMembers_iff {members : List (String × Json)} :
    ExactMembers members ↔ ∀ member ∈ members, member.2.Exact := by
  induction members with
  | nil => simp [ExactMembers]
  | cons member members ih => simp [ExactMembers, ih]

theorem nestingOfMembers_le_iff {members : List (String × Json)} {depth : Nat} :
    nestingOfMembers members ≤ depth ↔ ∀ member ∈ members, member.2.nesting ≤ depth := by
  induction members with
  | nil => simp [nestingOfMembers]
  | cons member members ih => simp [nestingOfMembers, ih]

theorem membersAreLegible_iff {members : List (String × Json)} :
    membersAreLegible members = true ↔ ∀ member ∈ members, member.2.isLegible = true := by
  induction members with
  | nil => simp [membersAreLegible]
  | cons member members ih => simp [membersAreLegible, ih]

theorem membersAreFaithful_iff_forall {members : List (String × Json)} :
    membersAreFaithful members = true ↔ ∀ member ∈ members, member.2.isFaithful = true := by
  induction members with
  | nil => simp [membersAreFaithful]
  | cons member members ih => simp [membersAreFaithful, ih]

end Json

namespace Store

open Json

theorem mapM_eq_some {α β : Type} {compute : α → Option β} (result : α → β) {items : List α}
    (h : ∀ item ∈ items, compute item = some (result item)) :
    items.mapM compute = some (items.map result) := by
  induction items with
  | nil => rfl
  | cons item items ih =>
    have hmore := ih fun other hother => h other (List.mem_cons_of_mem item hother)
    rw [List.mapM_cons, h item List.mem_cons_self, hmore]
    rfl

theorem mapM_eq_none {α β : Type} {compute : α → Option β} {items : List α} {item : α}
    (hitem : item ∈ items) (h : compute item = none) : items.mapM compute = none := by
  induction items with
  | nil => cases hitem
  | cons first items ih =>
    rw [List.mapM_cons]
    rcases List.mem_cons.mp hitem with rfl | hmem
    · rw [h]
      rfl
    · rw [ih hmem]
      cases compute first <;> rfl

/-! ## Parts of a snapshot -/

theorem documentMembers_eq (document : Document) :
    documentMembers document = Value.toJsonMembers document.entries := by
  unfold documentMembers
  induction document.entries with
  | nil => rfl
  | cons entry entries ih => rw [List.map_cons, ih, Value.toJsonMembers]

theorem exact_toJson (store : Store) : store.toJson.Exact := by
  refine ⟨⟨trivial, trivial, trivial⟩, ?_, ?_, trivial⟩
  · refine exactMembers_iff.mpr fun member hmember => ?_
    obtain ⟨run, -, rfl⟩ := List.mem_map.mp hmember
    show ExactMembers (documentMembers run.2)
    rw [documentMembers_eq]
    exact Value.exactMembers_toJsonMembers run.2.entries
  · refine exactMembers_iff.mpr fun member hmember => ?_
    obtain ⟨field, -, rfl⟩ := List.mem_map.mp hmember
    trivial

/-! ## Runs by number -/

theorem piece_of_isDigit {c : Char} (h : c.isDigit = true) : piece c = .char c := by
  rcases escape_cases c with ⟨-, hpiece, -⟩ | ⟨_, -, hpiece, -⟩ | ⟨-, -, hcontrol⟩
  · exact hpiece
  · exact hpiece
  · have hdigit : 48 ≤ c.toNat := (Char.isDigit_iff_toNat.mp h).1
    omega

theorem isDigit_of_mem_name {id : RunId} {c : Char} (h : c ∈ (Run.name id).toList) :
    c.isDigit = true := by
  rw [Run.name, Nat.toList_repr] at h
  exact Decimal.isDigit_of_mem_toDigits h

theorem literalText?_name (id : RunId) :
    literalText? (pieces (Run.name id)) = some (Run.name id) := by
  unfold literalText? pieces
  dsimp only
  rw [List.mapM_map, mapM_eq_some (fun c => c)]
  · rw [List.map_id', Option.map_some, String.ofList_toList]
  · intro c hc
    dsimp only [Function.comp]
    rw [piece_of_isDigit (isDigit_of_mem_name hc)]

theorem id?_name (id : RunId) : Run.id? (Run.name id) = some id := by
  have hdigits : (Run.name id).toList.all Char.isDigit = true :=
    List.all_eq_true.mpr fun c => isDigit_of_mem_name
  have hnumber : Decimal.ofDigits (Run.name id).toList = id.toNat := by
    rw [Run.name, Nat.toList_repr, Decimal.ofDigits_toDigits]
  have hne : (Run.name id == "") = false := by
    have htoList : (Run.name id).toList ≠ [] := by
      rw [Run.name, Nat.toList_repr]
      exact Nat.toDigits_ne_nil
    rw [beq_eq_false_iff_ne]
    exact fun heq => htoList (heq ▸ rfl)
  unfold Run.id?
  simp only [hnumber, hdigits, hne, Bool.not_true, Bool.or_self, Bool.false_eq_true, if_false,
    dif_pos id.toNat_lt_size, UInt64.ofNatLT_toNat]

theorem runOfKey?_name (id : RunId) : runOfKey? (pieces (Run.name id)) = some id := by
  show (literalText? (pieces (Run.name id))).bind _ = _
  rw [literalText?_name, Option.bind_some]
  show (Run.id? (Run.name id)).bind _ = _
  rw [id?_name, Option.bind_some, if_pos (beq_self_eq_true _)]

theorem ofJsonMembers_rereadMembers (document : Document) :
    SortedMap.ofList (Value.ofJsonMembers (rereadMembers (documentMembers document))) =
      document.reloaded := by
  have hmembers : Value.ofJsonMembers (rereadMembers (documentMembers document)) =
      document.reloaded.entries := by
    rw [documentMembers, Document.reloaded, SortedMap.entries_mapValues]
    induction document.entries with
    | nil => rfl
    | cons field fields ih =>
      rw [List.map_cons, rereadMembers, Value.ofJsonMembers, ih, List.map_cons, Value.reloaded]
  rw [hmembers, SortedMap.ofList_entries]

theorem loads_iff {document : Document} :
    nestingOfMembers (documentMembers document) ≤ documentDepth ∧
      membersAreLegible (documentMembers document) = true ↔ document.Loads := by
  rw [nestingOfMembers_le_iff, membersAreLegible_iff, documentMembers, List.forall_mem_map,
    List.forall_mem_map]
  rfl

/-- The document of a run is read as its texts are, if it can be read. -/
theorem run?_draft (document : Document) (id : RunId) :
    run? (pieces (Run.name id), .object (draftOfMembers (documentMembers document))) =
      if document.Loads then some (id, document.reloaded) else none := by
  have hexact : ExactMembers (documentMembers document) :=
    documentMembers_eq document ▸ Value.exactMembers_toJsonMembers document.entries
  show (runOfKey? (pieces (Run.name id))).bind _ = _
  rw [runOfKey?_name, Option.bind_some]
  show (Draft.resolveMembers? _ _).bind _ = _
  simp only [resolveMembers?_draft _ hexact, loads_iff]
  split
  · rw [Option.bind_some, ofJsonMembers_rereadMembers]
  · rfl

/-! ## Loading -/

theorem runs_foldl_insert (runs : List (RunId × Document)) (store : Store) :
    (runs.foldl (fun store run => store.insert run.1 run.2) store).runs =
      runs.foldl (fun map run => map.insert run.1 run.2) store.runs := by
  induction runs generalizing store with
  | nil => rfl
  | cons run runs ih => exact ih (store.insert run.1 run.2)

theorem runs_ofParts (header : Header) (runs : SortedMap RunId Document)
    (fields : List (String × FieldKind)) : (ofParts header runs.entries fields).runs = runs := by
  show ((SortedMap.ofList runs.entries).entries.foldl _ _ : Store).runs = runs
  rw [runs_foldl_insert, SortedMap.ofList_entries]
  exact SortedMap.ofList_entries runs

theorem header?_draft (header : Header) :
    header? (.object [
      (pieces "created_at", .string (pieces header.createdAt.text)),
      (pieces "src_dir", .string (pieces header.source.text))]) = some header := by
  simp [header?, parts?, text?_pieces]

theorem mapM_field?_draft (fields : List (String × FieldKind)) :
    (draftOfMembers (fields.map fun field => (field.1, .string field.2.text))).mapM field? =
      some (fields.map fun field => (field.1, .ofText field.2.text)) := by
  rw [draftOfMembers_eq_map, List.map_map, List.mapM_map]
  refine mapM_eq_some _ fun field _ => ?_
  simp [field?, draft, text?_pieces]

/-- The runs that are written into a snapshot. -/
def runMembers (runs : List (RunId × Document)) : List (String × Json) :=
  runs.map fun run => (Run.name run.1, .object (documentMembers run.2))

theorem ofDraft?_draft (store : Store) :
    ofDraft? store.toJson.draft =
      ((draftOfMembers (runMembers store.runs.entries)).mapM run?).map fun runs =>
        ofParts store.header runs
          (store.fields.entries.map fun field => (field.1, .ofText field.2.text)) := by
  have hparts : parts? ["header", "runs", "fields"] store.toJson.draft = some [
      .object [
        (pieces "created_at", .string (pieces store.header.createdAt.text)),
        (pieces "src_dir", .string (pieces store.header.source.text))],
      .object (draftOfMembers (runMembers store.runs.entries)),
      .object (draftOfMembers
        (store.fields.entries.map fun field => (field.1, .string field.2.text)))] := by
    simp [parts?, toJson, draft, draftOfMembers, text?_pieces, runMembers]
  unfold ofDraft?
  rw [hparts]
  simp only [Option.bind_eq_bind, Option.bind_some, header?_draft, mapM_field?_draft]
  cases (draftOfMembers (runMembers store.runs.entries)).mapM run? <;> rfl

/-- The documents of runs as they are read from a snapshot. -/
def reloadRuns (runs : SortedMap RunId Document) : SortedMap RunId Document :=
  runs.mapValues fun _ document => document.reloaded

/-- Where all doubles are read as themselves, the documents are read as they are saved. -/
theorem reloadRuns_of_faithful {runs : SortedMap RunId Document}
    (hordered : ∀ run ∈ runs.entries, run.2.Ordered)
    (hfaithful : ∀ run ∈ runs.entries, run.2.Faithful) :
    reloadRuns runs = runs.mapValues fun _ document => document.asSaved := by
  refine SortedMap.ext ?_
  rw [reloadRuns, SortedMap.entries_mapValues, SortedMap.entries_mapValues]
  refine List.map_congr_left fun run hrun => Prod.ext rfl ?_
  exact (hfaithful run hrun).reloaded_eq (hordered run hrun)

theorem reloadRuns_asSaved (runs : SortedMap RunId Document) :
    reloadRuns (runs.mapValues fun _ document => document.asSaved) = reloadRuns runs := by
  refine SortedMap.ext ?_
  simp only [reloadRuns, SortedMap.entries_mapValues, List.map_map]
  exact List.map_congr_left fun run _ => Prod.ext rfl (Document.reloaded_asSaved run.2)

/-- The store that a snapshot gives: the documents as they are read are inserted one after the
other, and then the kinds are read from their texts. -/
def reloaded (store : Store) : Store :=
  ofParts store.header (reloadRuns store.runs).entries
    (store.fields.entries.map fun field => (field.1, .ofText field.2.text))

theorem runs_reloaded (store : Store) : store.reloaded.runs = reloadRuns store.runs :=
  runs_ofParts _ _ _

/-- **A snapshot is read with the documents as they are read from their texts**, unless one of
them cannot be read. -/
theorem ofText?_toText (store : Store) :
    ((∀ run ∈ store.runs.entries, run.2.Loads) → ofText? store.toText = some store.reloaded) ∧
      ((∃ run ∈ store.runs.entries, ¬ run.2.Loads) → ofText? store.toText = none) := by
  have hread : ofText? store.toText = ofDraft? store.toJson.draft := by
    rw [ofText?, toText, read_draft (exact_toJson store), Option.bind_some]
  rw [hread, ofDraft?_draft, runMembers, draftOfMembers_eq_map, List.map_map, List.mapM_map]
  -- The runs are read one by one, and one that cannot be read spoils the snapshot.
  constructor
  · intro hloads
    rw [mapM_eq_some fun run => (run.1, run.2.reloaded)]
    · rfl
    · intro run hrun
      exact (run?_draft run.2 run.1).trans (if_pos (hloads run hrun))
  · rintro ⟨run, hrun, hspoilt⟩
    rw [mapM_eq_none hrun]
    · rfl
    · exact (run?_draft run.2 run.1).trans (if_neg hspoilt)

/-! ## The document of a snapshot -/

theorem nesting_toJson_le_iff {store : Store} :
    store.toJson.nesting ≤ maxDepth ↔ ∀ run ∈ store.runs.entries, run.2.Shallow := by
  have hfields : nestingOfMembers (store.fields.entries.map fun field =>
      (field.1, Json.string field.2.text)) ≤ 0 := by
    rw [nestingOfMembers_le_iff, List.forall_mem_map]
    exact fun _ _ => le_rfl
  have hruns : nestingOfMembers (runMembers store.runs.entries) ≤ documentDepth + 1 ↔
      ∀ run ∈ store.runs.entries, run.2.Shallow := by
    rw [nestingOfMembers_le_iff, runMembers, List.forall_mem_map]
    refine forall_congr' fun run => imp_congr_right fun _ => ?_
    rw [nesting, Nat.add_le_add_iff_right, nestingOfMembers_le_iff, documentMembers,
      List.forall_mem_map]
    rfl
  have hparts : store.toJson.nesting =
      max 1 (max (nestingOfMembers (runMembers store.runs.entries) + 1)
        (max (nestingOfMembers (store.fields.entries.map fun field =>
          (field.1, Json.string field.2.text)) + 1) 0)) + 1 := rfl
  have hdepth : documentDepth + 3 = maxDepth := rfl
  rw [← hruns]
  omega

theorem isFaithful_toJson_iff {store : Store} :
    store.toJson.isFaithful = true ↔ ∀ run ∈ store.runs.entries, run.2.Faithful := by
  have hfields : (Json.object (store.fields.entries.map fun field =>
      (field.1, .string field.2.text))).isFaithful = true := by
    rw [isFaithful, membersAreFaithful_iff_forall, List.forall_mem_map]
    exact fun _ _ => rfl
  have hruns : (Json.object (runMembers store.runs.entries)).isFaithful = true ↔
      ∀ run ∈ store.runs.entries, run.2.Faithful := by
    rw [isFaithful, membersAreFaithful_iff_forall, runMembers, List.forall_mem_map]
    refine forall_congr' fun run => imp_congr_right fun _ => ?_
    rw [isFaithful, membersAreFaithful_iff_forall, documentMembers, List.forall_mem_map]
    rfl
  have hparts : store.toJson.isFaithful =
      (true && ((Json.object (runMembers store.runs.entries)).isFaithful &&
        ((Json.object (store.fields.entries.map fun field =>
          (field.1, .string field.2.text))).isFaithful && true))) := rfl
  rw [← hruns, hparts, hfields, Bool.and_true, Bool.and_true, Bool.true_and]

/-- **A snapshot reads back as the JSON document that was written** exactly if no document is
nested too deep and all doubles are read as themselves. -/
theorem read_toText_iff {store : Store} :
    Json.read store.toText = some store.toJson ↔
      ∀ run ∈ store.runs.entries, run.2.Shallow ∧ run.2.Faithful := by
  rw [toText, read_pretty_iff (exact_toJson store), nesting_toJson_le_iff, isFaithful_toJson_iff]
  simp only [← forall_and]

/-! ## Saving -/

variable {store : Store} {path : Path} {disk written : Disk}

theorem write_of_save (h : store.save path disk = .ok written) :
    disk.write path (.text store.toText) = .ok written := by
  unfold save at h
  cases hwrite : disk.write path (.text store.toText) with
  | error fault =>
    rw [hwrite] at h
    cases h
  | ok other =>
    rw [hwrite] at h
    cases h
    rfl

/-- A path that a store has been saved to leads to a name in a folder. -/
theorem leadsTo_of_save {name : String} (hpath : path.EndsWith name) (hname : Disk.IsName name)
    (htop : disk.top.outlineAt? [] = some .folder) (h : store.save path disk = .ok written) :
    ∃ folder, disk.LeadsTo path folder name := by
  have hwrite := write_of_save h
  obtain ⟨place, hlocate⟩ := Disk.exists_locate_of_write hwrite
  have hplace := ((Disk.write_eq_ok hlocate).mp hwrite).1
  obtain ⟨folder, -, hleads⟩ := Disk.leadsTo_of_endsWith hpath hname htop hlocate hplace
  exact ⟨folder, hleads⟩

theorem readText_of_save (h : store.save path disk = .ok written) :
    written.readText path = .ok store.toText :=
  Disk.readText_of_write (write_of_save h)

theorem load_of_readText (hread : disk.readText path = .ok store.toText) :
    load path disk = if ∀ run ∈ store.runs.entries, run.2.Loads then .ok store.reloaded
      else .error (.corruptSnapshot path) := by
  obtain ⟨hloads, hspoilt⟩ := store.ofText?_toText
  rw [load, hread]
  dsimp only
  by_cases hall : ∀ run ∈ store.runs.entries, run.2.Loads
  · rw [if_pos hall, hloads hall]
    rfl
  · rw [if_neg hall, hspoilt (by simpa using hall)]
    rfl

end Store

end Logbook
