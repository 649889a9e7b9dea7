import Logbook.Frame.Grouping
import Logbook.Proofs.Frame.Partition
import Logbook.Proofs.Reading
import Logbook.SortedMap.Lemmas

/-!
# The leaves of a grouping

Ungrouping goes through a tree and writes tuples into rows on the way back, the inner
ones first.  Here the tree is taken apart once: `Grouping.leaves` lists the rows of its
frames in order, each with all that is written into it.  What ungrouping does to the
tree is then done to a list (`Grouping.rows_eq_leaves`, `Grouping.leaves_copy`).
-/

namespace Logbook

/-! ## Writing values into a row -/

namespace Row

variable (row : Row) (fields others : List (String × Value))

@[simp] theorem update_nil : row.update [] = row := rfl

theorem update_append : row.update (fields ++ others) = (row.update fields).update others :=
  List.foldl_append

@[simp] theorem id_update : (row.update fields).id = row.id := by
  induction fields generalizing row with
  | nil => rfl
  | cons field fields ih => exact ih (row.insert field.1 (.value field.2))

@[simp] theorem metrics_update : (row.update fields).metrics = row.metrics := by
  induction fields generalizing row with
  | nil => rfl
  | cons field fields ih => exact ih (row.insert field.1 (.value field.2))

@[simp] theorem artifacts_update : (row.update fields).artifacts = row.artifacts := by
  induction fields generalizing row with
  | nil => rfl
  | cons field fields ih => exact ih (row.insert field.1 (.value field.2))

/-- Of values with one key the last is written, and other fields stay. -/
theorem get?_update (key : String) :
    (row.update fields).slots.get? key =
      (((SortedMap.ofList fields).get? key).map Slot.value).or (row.slots.get? key) := by
  induction fields generalizing row with
  | nil => simp [SortedMap.ofList]
  | cons field fields ih =>
    have hcons : row.update (field :: fields) =
        (row.insert field.1 (.value field.2)).update fields := rfl
    have hinsert : (row.insert field.1 (.value field.2)).slots.get? key =
        if key = field.1 then some (.value field.2) else row.slots.get? key :=
      SortedMap.get?_insert _ _ _ _
    rw [hcons, ih, hinsert, SortedMap.get?_ofList, SortedMap.get?_ofList, List.reverse_cons,
      List.find?_append]
    by_cases hkey : key = field.1
    · cases fields.reverse.find? fun entry => entry.1 = key <;> simp [hkey]
    · cases fields.reverse.find? fun entry => entry.1 = key <;> simp [hkey, Ne.symm hkey]

variable {fields}

/-- What is written is the same in every row. -/
theorem exists_slot_of_update {key : String} (hkey : key ∈ fields.map Prod.fst) :
    ∃ value, (key, value) ∈ fields ∧
      ∀ row : Row, (row.update fields).slots.get? key = some (.value value) := by
  obtain ⟨value, hvalue⟩ := SortedMap.exists_get?_ofList hkey
  refine ⟨value, SortedMap.mem_of_get?_ofList hvalue, fun row => ?_⟩
  rw [get?_update, hvalue]
  rfl

theorem slot_of_update {key : String} (hkey : key ∉ fields.map Prod.fst) :
    (row.update fields).slots.get? key = row.slots.get? key := by
  have hunwritten : (SortedMap.ofList fields).get? key = none := by
    rw [SortedMap.get?_eq_none_iff, SortedMap.mem_keys_ofList]
    rintro ⟨value, hmem⟩
    exact hkey (List.mem_map_of_mem hmem)
  rw [get?_update, hunwritten, Option.map_none, Option.none_or]

end Row

/-! ## Leaves -/

/-- A row in a group, with the values that are written into it in their order. -/
abbrev Leaf := List (String × Value) × Row

namespace Grouping

mutual

/-- The rows of a grouping into which the given values are written last. -/
def leaves (outer : List (String × Value)) : Grouping → List Leaf
  | whole frame => frame.rows.map fun row => (outer, row)
  | split keys groups => leavesOfGroups outer keys groups

/-- The rows of some groups of a split by the given keys. -/
def leavesOfGroups (outer : List (String × Value)) (keys : List String) :
    List (List Value × Grouping) → List Leaf
  | [] => []
  | (tuple, group) :: groups =>
      group.leaves (keys.zip tuple ++ outer) ++ leavesOfGroups outer keys groups

end

mutual

theorem map_update_rows (outer : List (String × Value)) (grouping : Grouping) :
    (grouping.rows.map fun row => row.update outer) =
      (grouping.leaves outer).map fun leaf => leaf.2.update leaf.1 := by
  cases grouping with
  | whole frame =>
    rw [rows, leaves, List.map_map]
    rfl
  | split keys groups => exact map_update_rowsOfGroups outer keys groups

theorem map_update_rowsOfGroups (outer : List (String × Value)) (keys : List String)
    (groups : List (List Value × Grouping)) :
    ((rowsOfGroups keys groups).map fun row => row.update outer) =
      (leavesOfGroups outer keys groups).map fun leaf => leaf.2.update leaf.1 := by
  cases groups with
  | nil => rfl
  | cons group groups =>
    obtain ⟨tuple, group⟩ := group
    rw [rowsOfGroups, leavesOfGroups, List.map_append, List.map_append,
      ← map_update_rows (keys.zip tuple ++ outer) group,
      ← map_update_rowsOfGroups outer keys groups, List.map_map]
    -- The tuple of the group is written first, and then what comes from further out.
    refine congrArg (· ++ _) (List.map_congr_left fun row _ => ?_)
    exact (Row.update_append row (keys.zip tuple) outer).symm

end

/-- The rows of a grouping are its leaves with everything written into them. -/
theorem rows_eq_leaves (grouping : Grouping) :
    grouping.rows = (grouping.leaves []).map fun leaf => leaf.2.update leaf.1 := by
  rw [← map_update_rows]
  simp

/-- A split into frames has the rows of the frames in order, each with its tuple. -/
theorem leavesOfGroups_whole (outer : List (String × Value)) (keys : List String)
    (groups : List (List Value × List Row)) :
    leavesOfGroups outer keys (groups.map fun group => (group.1, whole ⟨group.2⟩)) =
      (groups.flatMap fun group => group.2.map (Prod.mk group.1)).map fun pair =>
        (keys.zip pair.1 ++ outer, pair.2) := by
  induction groups with
  | nil => rfl
  | cons group groups ih =>
    rw [List.map_cons, leavesOfGroups, ih, leaves, List.flatMap_cons, List.map_append, List.map_map]
    rfl

/-! ## Copying -/

/-- A leaf with a copy of its row. -/
def copyLeaf (leaf : Leaf) : Reading Leaf := return (leaf.1, ← leaf.2.copy)

theorem copyLeaf_eq_ok {leaf copied : Leaf} {disk : Disk} {shelf after : Shelf} :
    copyLeaf leaf disk shelf = (.ok copied, after) ↔
      copied.1 = leaf.1 ∧ leaf.2.copy disk shelf = (.ok copied.2, after) := by
  unfold copyLeaf
  rw [Reading.bind_eq_ok]
  constructor
  · rintro ⟨copy, between, hcopy, hpure⟩
    cases hpure
    exact ⟨rfl, hcopy⟩
  · rintro ⟨hfields, hcopy⟩
    exact ⟨copied.2, after, hcopy, by rw [← hfields]; rfl⟩

/-- Copying the rows of a frame succeeds. -/
theorem exists_copies (rows : List Row) (disk : Disk) (shelf : Shelf) :
    ∃ copies after, Row.copies rows disk shelf = (.ok copies, after) ∧
      ∀ outer, (rows.map fun row => (outer, row)).mapM copyLeaf disk shelf =
        (.ok (copies.map fun row => (outer, row)), after) := by
  induction rows generalizing shelf with
  | nil => exact ⟨[], shelf, rfl, fun _ => rfl⟩
  | cons row rows ih =>
    obtain ⟨copy, between, hcopy⟩ : ∃ copy between, row.copy disk shelf = (.ok copy, between) :=
      ⟨_, _, rfl⟩
    obtain ⟨copies, after, hcopies, hleaves⟩ := ih between
    refine ⟨copy :: copies, after, ?_, fun outer => ?_⟩
    · rw [Row.copies] at hcopies ⊢
      rw [List.mapM_cons, Reading.bind_of_ok hcopy, Reading.bind_of_ok hcopies]
      rfl
    · have hleaf : copyLeaf (outer, row) disk shelf = (.ok (outer, copy), between) :=
        copyLeaf_eq_ok.mpr ⟨rfl, hcopy⟩
      rw [List.map_cons, List.mapM_cons, Reading.bind_of_ok hleaf,
        Reading.bind_of_ok (hleaves outer)]
      rfl

mutual

/-- Copying a grouping succeeds, and copies its leaves in order. -/
theorem leaves_copy (grouping : Grouping) (disk : Disk) (shelf : Shelf) :
    ∃ copied after, grouping.copy disk shelf = (.ok copied, after) ∧
      ∀ outer, (grouping.leaves outer).mapM copyLeaf disk shelf =
        (.ok (copied.leaves outer), after) := by
  cases grouping with
  | whole frame =>
    obtain ⟨copies, after, hcopies, hleaves⟩ := exists_copies frame.rows disk shelf
    have hframe : frame.copy disk shelf = (.ok ⟨copies⟩, after) := by
      show (Row.copies frame.rows >>= fun rows => return ⟨rows⟩ : Reading Frame) disk shelf = _
      rw [Reading.bind_of_ok hcopies]
      rfl
    refine ⟨whole ⟨copies⟩, after, ?_, hleaves⟩
    show (frame.copy >>= fun frame => return whole frame : Reading Grouping) disk shelf = _
    rw [Reading.bind_of_ok hframe]
    rfl
  | split keys groups =>
    obtain ⟨copied, after, hcopied, hleaves⟩ := leavesOfGroups_copy groups disk shelf
    refine ⟨split keys copied, after, ?_, fun outer => hleaves outer keys⟩
    show (mapGroups (fun frame => return whole (← frame.copy)) groups >>= fun groups =>
      return split keys groups : Reading Grouping) disk shelf = _
    rw [Reading.bind_of_ok hcopied]
    rfl

theorem leavesOfGroups_copy (groups : List (List Value × Grouping)) (disk : Disk) (shelf : Shelf) :
    ∃ copied after,
      mapGroups (fun frame => return whole (← frame.copy)) groups disk shelf = (.ok copied, after) ∧
      ∀ outer keys, (leavesOfGroups outer keys groups).mapM copyLeaf disk shelf =
        (.ok (leavesOfGroups outer keys copied), after) := by
  cases groups with
  | nil => exact ⟨[], shelf, rfl, fun _ _ => rfl⟩
  | cons group groups =>
    obtain ⟨tuple, group⟩ := group
    obtain ⟨first, between, hfirst, hfirstLeaves⟩ := leaves_copy group disk shelf
    obtain ⟨rest, after, hrest, hrestLeaves⟩ := leavesOfGroups_copy groups disk between
    refine ⟨(tuple, first) :: rest, after, ?_, fun outer keys => ?_⟩
    · have hgroup : mapFrames (fun frame => return whole (← frame.copy)) group disk shelf =
          (.ok first, between) := hfirst
      rw [mapGroups, Reading.bind_of_ok hgroup, Reading.bind_of_ok hrest]
      rfl
    · rw [leavesOfGroups, List.mapM_append, Reading.bind_of_ok (hfirstLeaves _),
        Reading.bind_of_ok (hrestLeaves outer keys)]
      rfl

end

end Grouping

end Logbook
