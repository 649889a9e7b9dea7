import Logbook.Proofs.Frame.Filter
import Logbook.Proofs.Row.Fixed
import Logbook.Proofs.Value.Meaning

/-!
# What a row holds

A field that is a value, or that has been computed, is there without loading or calling anything
(`Row.held?`): reading it gives the value and leaves the shelf alone.  A copy of the row holds the
same, and so does the row at any later time (`Row.Becomes`).

## Strategy

A copy gets new cells with what is in the old ones.  So a cell that has a value is followed by a
cell with this value (`copyFields_settled`); an empty one may get its value later, in the copy and
in the row apart from each other.  That is why nothing is said of a field that is computed and has
not been read, unless it is read first (`Row.Quiet`).
-/

namespace Logbook

/-- A new cell leaves the others alone. -/
theorem Shelf.settled?_copyCell {shelf : Shelf} {cell : Nat} {value : Value}
    (hsettled : shelf.settled? cell = some value) (other : Nat) :
    (shelf.copyCell other).2.settled? cell = some value := by
  unfold copyCell
  cases shelf.cells[other]? with
  | none => exact hsettled
  | some state =>
    obtain ⟨source, hstate⟩ := settled?_eq_some_iff.mp hsettled
    have hbound := (Array.getElem?_eq_some_iff.mp hstate).1
    refine settled?_eq_some_iff.mpr ⟨source, ?_⟩
    exact ((Array.getElem?_push_lt hbound).trans
      (Array.getElem?_eq_getElem hbound).symm).trans hstate

namespace Row

variable {disk : Disk} {now after last : Shelf} {row later : Row} {key : String} {value : Value}

/-- The value that a field has without anything being loaded or computed. -/
def held? (shelf : Shelf) (row : Row) (key : String) : Option Value :=
  match row.slots.get? key with
  | some (.value value) => some value
  | some (.computed cell) => shelf.settled? cell
  | _ => none

/-- Reading the field does not call a function. -/
def Quiet (shelf : Shelf) (row : Row) (key : String) : Prop :=
  ∀ cell, row.cellAt? key = some cell → (row.held? shelf key).isSome

theorem held?_congr {other : Row} (hslot : later.slots.get? key = other.slots.get? key)
    (shelf : Shelf) : later.held? shelf key = other.held? shelf key := by
  unfold held?
  rw [hslot]

theorem held?_of_value (hslot : row.slots.get? key = some (.value value)) (shelf : Shelf) :
    row.held? shelf key = some value := by
  unfold held?
  rw [hslot]

theorem held?_of_computed {cell : Nat} (hslot : row.slots.get? key = some (.computed cell))
    (shelf : Shelf) : row.held? shelf key = shelf.settled? cell := by
  unfold held?
  rw [hslot]

theorem held?_eq_some_iff :
    row.held? now key = some value ↔ row.slots.get? key = some (.value value) ∨
      ∃ cell, row.slots.get? key = some (.computed cell) ∧ now.settled? cell = some value := by
  unfold held?
  cases row.slots.get? key with
  | none => simp
  | some slot => cases slot <;> simp

theorem quiet_of_held (hheld : row.held? now key = some value) : row.Quiet now key :=
  fun _ _ => hheld ▸ rfl

theorem quiet_of_plain (hplain : row.cellAt? key = none) : row.Quiet now key := by
  intro cell hcell
  rw [hplain] at hcell
  cases hcell

/-- A field that is there gives its value, and nothing happens. -/
theorem get?_of_held (hheld : row.held? now key = some value) (disk : Disk) :
    row.get? key disk now = (.ok (some value), now) := by
  obtain hslot | ⟨cell, hslot, hsettled⟩ := held?_eq_some_iff.mp hheld
  · rw [get?_of_some hslot]
    rfl
  · rw [get?_of_some hslot, readSlot, Shelf.compute_of_settled hsettled]
    rfl

/-- The lazy view shows it. -/
theorem view_of_held (hheld : row.held? now key = some value) :
    (row.view now).get? key = some value := by
  rw [view, SortedMap.get?_mapValues]
  obtain hslot | ⟨cell, hslot, hsettled⟩ := held?_eq_some_iff.mp hheld
  · rw [hslot]
    rfl
  · rw [hslot, Option.map_some, viewSlot, hsettled]
    rfl

/-- A field that has been read is there, if it can be, and is what was read. -/
theorem held?_of_get? (hget : row.get? key disk now = (.ok (some value), after)) :
    row.Quiet after key ∧ ∀ held, row.held? after key = some held → held = value := by
  cases hcell : row.cellAt? key with
  | some cell =>
    have hheld : row.held? after key = some value := by
      rw [held?_of_computed (cellAt?_eq_some_iff.mp hcell)]
      exact settled?_get? hcell hget
    exact ⟨quiet_of_held hheld, fun held hother => Option.some_inj.mp (hother.symm.trans hheld)⟩
  | none =>
    refine ⟨quiet_of_plain hcell, fun held hheld => ?_⟩
    obtain hslot | ⟨cell, hslot, -⟩ := held?_eq_some_iff.mp hheld
    · rw [get?_of_held (held?_of_value hslot now)] at hget
      cases hget
      rfl
    · rw [cellAt?_eq_some_iff.mpr hslot] at hcell
      cases hcell

/-! ## Copies -/

/-- The numbers of a row and of its loaders are not in its fields. -/
theorem copyFields_frame (row : Row) (shelf : Shelf) (fields : List (String × Slot)) :
    (row.copyFields shelf fields).1.id = row.id ∧
      (row.copyFields shelf fields).1.metrics = row.metrics ∧
      (row.copyFields shelf fields).1.artifacts = row.artifacts := by
  induction fields generalizing row shelf with
  | nil => exact ⟨rfl, rfl, rfl⟩
  | cons field fields ih =>
    obtain ⟨key, slot⟩ := field
    cases slot with
    | computed cell => exact ih (row.insert key (.computed _)) _
    | value value => exact ih row shelf
    | metric loader => exact ih row shelf
    | artifacts loader => exact ih row shelf

/-- Only computed fields get new slots. -/
theorem copyFields_plain (row : Row) (shelf : Shelf) {fields : List (String × Slot)}
    (hplain : ∀ cell, (key, .computed cell) ∉ fields) :
    (row.copyFields shelf fields).1.slots.get? key = row.slots.get? key := by
  induction fields generalizing row shelf with
  | nil => rfl
  | cons field fields ih =>
    obtain ⟨name, slot⟩ := field
    have hrest : ∀ cell, (key, Slot.computed cell) ∉ fields := fun cell hmem =>
      hplain cell (List.mem_cons_of_mem _ hmem)
    cases slot with
    | computed cell =>
      have hname : key ≠ name := fun heq => hplain cell (heq ▸ List.mem_cons_self)
      rw [copyFields, ih _ _ hrest]
      exact (SortedMap.get?_insert _ _ _ _).trans (if_neg hname)
    | value value => exact ih row shelf hrest
    | metric loader => exact ih row shelf hrest
    | artifacts loader => exact ih row shelf hrest

/-- A cell with a value is followed by one with the same value. -/
theorem copyFields_settled (row : Row) {shelf : Shelf} {fields : List (String × Slot)}
    (hkeys : (fields.map Prod.fst).Nodup) {cell : Nat} (hcell : (key, .computed cell) ∈ fields)
    (hsettled : shelf.settled? cell = some value) :
    ∃ new, (row.copyFields shelf fields).1.slots.get? key = some (.computed new) ∧
      (row.copyFields shelf fields).2.settled? new = some value := by
  induction fields generalizing row shelf with
  | nil => cases hcell
  | cons field fields ih =>
    obtain ⟨name, slot⟩ := field
    obtain ⟨hname, hrest⟩ := List.nodup_cons.mp hkeys
    obtain heq | hmem := List.mem_cons.mp hcell
    · obtain ⟨rfl, rfl⟩ := Prod.mk.inj heq
      obtain ⟨source, hstate⟩ := Shelf.settled?_eq_some_iff.mp hsettled
      have habsent : ∀ other, (key, Slot.computed other) ∉ fields := fun other hmem =>
        hname (List.mem_map.mpr ⟨_, hmem, rfl⟩)
      rw [copyFields, Shelf.copyCell, hstate]
      refine ⟨shelf.cells.size, ?_, ?_⟩
      · exact (copyFields_plain _ _ habsent).trans (SortedMap.get?_insert_self _ _ _)
      · -- The cell is new, and the other copies put theirs behind it.
        obtain ⟨cells, hshelf, -, hkept⟩ :=
          (row.insert key (.computed shelf.cells.size)).shelf_copyFields
            (Shelf.addCell ⟨source, some value⟩ shelf).2 fields
        have hnew : (shelf.cells.push ⟨source, some value⟩)[shelf.cells.size]? =
            some ⟨source, some value⟩ := Array.getElem?_push_size
        refine Shelf.settled?_eq_some_iff.mpr ⟨source, ?_⟩
        show ((row.insert key (.computed shelf.cells.size)).copyFields
          (Shelf.addCell ⟨source, some value⟩ shelf).2 fields).2.cells[shelf.cells.size]? = _
        rw [hshelf]
        refine (hkept _ ?_).trans hnew
        show shelf.cells.size < (shelf.cells.push ⟨source, some value⟩).size
        rw [Array.size_push]
        exact Nat.lt_succ_self _
    · cases slot with
      | computed other =>
        exact ih (row.insert name _) hrest hmem (Shelf.settled?_copyCell hsettled other)
      | value value => exact ih row hrest hmem hsettled
      | metric loader => exact ih row hrest hmem hsettled
      | artifacts loader => exact ih row hrest hmem hsettled

/-! ## Rows at later times -/

/-- A row at some time and a row at a later one that goes on for it: it holds what the first row
held, and has the same in fields that are not computed. -/
structure Becomes (now after : Shelf) (row later : Row) : Prop where
  id : later.id = row.id
  metrics : later.metrics = row.metrics
  artifacts : later.artifacts = row.artifacts
  held (key : String) (value : Value) (hheld : row.held? now key = some value) :
    later.held? after key = some value
  plain (key : String) (hplain : row.cellAt? key = none) :
    later.slots.get? key = row.slots.get? key

theorem Becomes.trans {final : Row} (h : Becomes now after row later)
    (hfinal : Becomes after last later final) : Becomes now last row final where
  id := hfinal.id.trans h.id
  metrics := hfinal.metrics.trans h.metrics
  artifacts := hfinal.artifacts.trans h.artifacts
  held key value hheld := hfinal.held key value (h.held key value hheld)
  plain key hplain := by
    have hslot := h.plain key hplain
    refine (hfinal.plain key ?_).trans hslot
    unfold cellAt? at hplain ⊢
    rwa [hslot]

/-- A row goes on for itself. -/
theorem becomes_of_later (hlater : now.Later disk after) : Becomes now after row row where
  id := rfl
  metrics := rfl
  artifacts := rfl
  held key value hheld := by
    obtain hslot | ⟨cell, hslot, hsettled⟩ := held?_eq_some_iff.mp hheld
    · exact held?_of_value hslot after
    · rw [held?_of_computed hslot]
      exact hlater.settled? hsettled
  plain _ _ := rfl

/-- A copy goes on for the row. -/
theorem becomes_of_copy {copy : Row} (hcopy : row.copy disk now = (.ok copy, after)) :
    Becomes now after row copy := by
  obtain ⟨rfl, rfl⟩ : (row.copyFields now row.slots.entries).1 = copy ∧
      (row.copyFields now row.slots.entries).2 = after := by
    cases hcopy
    exact ⟨rfl, rfl⟩
  obtain ⟨hid, hmetrics, hartifacts⟩ := row.copyFields_frame now row.slots.entries
  have hplain : ∀ key, row.cellAt? key = none →
      (row.copyFields now row.slots.entries).1.slots.get? key = row.slots.get? key := by
    intro key hnone
    refine row.copyFields_plain now fun cell hmem => ?_
    rw [cellAt?_eq_some_iff.mpr (SortedMap.get?_eq_some_iff.mpr hmem)] at hnone
    cases hnone
  refine ⟨hid, hmetrics, hartifacts, fun key value hheld => ?_, hplain⟩
  obtain hslot | ⟨cell, hslot, hsettled⟩ := held?_eq_some_iff.mp hheld
  · refine held?_of_value ((hplain key ?_).trans hslot) _
    rw [cellAt?, hslot]
  · obtain ⟨new, hnew, hvalue⟩ := row.copyFields_settled row.slots.nodup_keys
      (SortedMap.mem_of_get? hslot) hsettled
    rw [held?_of_computed hnew]
    exact hvalue

/-- What is quiet stays so, and holds the same. -/
theorem Becomes.quiet (h : Becomes now after row later) (hquiet : row.Quiet now key) :
    later.Quiet after key ∧ later.held? after key = row.held? now key := by
  cases hcell : row.cellAt? key with
  | some cell =>
    obtain ⟨value, hheld⟩ := Option.isSome_iff_exists.mp (hquiet cell hcell)
    have hlater := h.held key value hheld
    exact ⟨quiet_of_held hlater, hlater.trans hheld.symm⟩
  | none =>
    have hslot := h.plain key hcell
    have hnone : later.cellAt? key = none := by
      unfold cellAt? at hcell ⊢
      rwa [hslot]
    refine ⟨quiet_of_plain hnone, (held?_congr hslot after).trans ?_⟩
    -- A field that is not computed does not depend on the shelf.
    unfold cellAt? at hcell
    unfold held?
    rcases hfound : row.slots.get? key with _ | _ | _ | _ | _
    all_goals first | rfl | simp [hfound] at hcell

end Row

end Logbook
