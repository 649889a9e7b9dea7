import Logbook.Proofs.Reading
import Logbook.Row
import Logbook.SortedMap.Lemmas

/-!
# The cells of a row

A computed field has a cell on the shelf, and the row only knows its number.  This file
says which cells an operation on a row touches:

* reading a field touches at most the cell of that field, and leaves the value there;
* releasing a row touches none;
* copying a row puts the contents of its cells into new ones, one for each field.

The cells of a row belong to it alone as long as no two fields have one number.
`Row.Housed` says so for the fields of one row, and `Row.Apart` for two rows.
-/

namespace Logbook

namespace Shelf

/-! ## Later shelves -/

/-- A shelf that another one becomes when rows are read, released and copied. -/
inductive Later (disk : Disk) (before : Shelf) : Shelf → Prop where
  | refl : Later disk before before
  | get? {shelf : Shelf} (row : Row) (key : String) (h : Later disk before shelf) :
      Later disk before (row.get? key disk shelf).2
  | release {shelf : Shelf} (row : Row) (h : Later disk before shelf) :
      Later disk before (row.release disk shelf).2
  | copy {shelf : Shelf} (row : Row) (h : Later disk before shelf) :
      Later disk before (row.copy disk shelf).2

theorem Later.trans {disk : Disk} {first second third : Shelf} (hfirst : Later disk first second)
    (hsecond : Later disk second third) : Later disk first third := by
  induction hsecond with
  | refl => exact hfirst
  | get? row key _ ih => exact ih.get? row key
  | release row _ ih => exact ih.release row
  | copy row _ ih => exact ih.copy row

theorem later_get? {disk : Disk} {now after : Shelf} {row : Row} {key : String}
    {outcome : Except Error (Option Value)} (hget : row.get? key disk now = (outcome, after)) :
    now.Later disk after := by
  have hlater : now.Later disk (row.get? key disk now).2 := .get? row key .refl
  rwa [hget] at hlater

theorem later_release {disk : Disk} {now after : Shelf} {row : Row} {outcome : Except Error Unit}
    (hrelease : row.release disk now = (outcome, after)) : now.Later disk after := by
  have hlater : now.Later disk (row.release disk now).2 := .release row .refl
  rwa [hrelease] at hlater

theorem later_copy {disk : Disk} {now after : Shelf} {row : Row} {outcome : Except Error Row}
    (hcopy : row.copy disk now = (outcome, after)) : now.Later disk after := by
  have hlater : now.Later disk (row.copy disk now).2 := .copy row .refl
  rwa [hcopy] at hlater

/-! ## Computing -/

variable {disk : Disk} {shelf : Shelf} {cell : Nat} {key : String}

theorem cells_call (source : Nat) (key : String) (disk : Disk) (shelf : Shelf) :
    (call source key disk shelf).2.cells = shelf.cells := by
  unfold call
  cases shelf.sources[source]? <;> rfl

theorem settled?_eq_some_iff {value : Value} :
    shelf.settled? cell = some value ↔
      ∃ source, shelf.cells[cell]? = some ⟨source, some value⟩ := by
  unfold settled?
  constructor
  · intro hsettled
    obtain ⟨⟨source, kept⟩, hcell, hkept⟩ := Option.bind_eq_some_iff.mp hsettled
    obtain rfl : kept = some value := hkept
    exact ⟨source, hcell⟩
  · rintro ⟨source, hcell⟩
    rw [hcell]
    rfl

/-- What is in the cell decides what computing does. -/
private theorem compute_apply (cell : Nat) (key : String) (disk : Disk) (shelf : Shelf) :
    compute cell key disk shelf = (match shelf.cells[cell]? with
      | some ⟨_, some value⟩ => return value
      | some ⟨source, none⟩ => do
          let value ← call source key
          settle cell value
          return value
      | none => throw .files : Reading Value) disk shelf := rfl

/-- A field that has a value gives it. -/
theorem compute_of_settled {value : Value} (hsettled : shelf.settled? cell = some value) :
    compute cell key disk shelf = (.ok value, shelf) := by
  obtain ⟨source, hcell⟩ := settled?_eq_some_iff.mp hsettled
  rw [compute_apply, hcell]
  rfl

/-- A field without a value asks its function, and keeps what that gives. -/
theorem compute_of_unsettled {source : Nat} (hcell : shelf.cells[cell]? = some ⟨source, none⟩) :
    compute cell key disk shelf =
      match call source key disk shelf with
      | (.ok value, between) => (.ok value, { between with
          cells := between.cells.modify cell fun state => { state with value := some value } })
      | (.error error, between) => (.error error, between) := by
  rw [compute_apply, hcell]
  show (call source key >>= fun value => do
    settle cell value
    return value : Reading Value) disk shelf = _
  rw [Reading.bind_apply]
  rcases call source key disk shelf with ⟨_ | _, _⟩ <;> rfl

theorem compute_of_absent (hcell : shelf.cells[cell]? = none) :
    compute cell key disk shelf = (.error .files, shelf) := by
  rw [compute_apply, hcell]
  rfl

/-- What computing does to the cells: at most the one of the field gets the value. -/
theorem cells_compute (cell : Nat) (key : String) (disk : Disk) (shelf : Shelf) :
    (compute cell key disk shelf).2.cells = shelf.cells ∨
      ∃ value, (compute cell key disk shelf).1 = .ok value ∧
        (compute cell key disk shelf).2.cells =
          shelf.cells.modify cell fun state => { state with value := some value } := by
  cases hcell : shelf.cells[cell]? with
  | none =>
    rw [compute_of_absent hcell]
    exact Or.inl rfl
  | some state =>
    obtain ⟨source, _ | value⟩ := state
    · have hcall := cells_call source key disk shelf
      rw [compute_of_unsettled hcell]
      rcases hrun : call source key disk shelf with ⟨error | value, between⟩
      · rw [hrun] at hcall
        exact Or.inl hcall
      · rw [hrun] at hcall
        refine Or.inr ⟨value, rfl, ?_⟩
        dsimp only at hcall ⊢
        rw [hcall]
    · rw [compute_of_settled (settled?_eq_some_iff.mpr ⟨source, hcell⟩)]
      exact Or.inl rfl

/-- Fields with the same in their cells give the same. -/
theorem compute_congr {other : Nat} (hcells : shelf.cells[cell]? = shelf.cells[other]?) :
    (compute cell key disk shelf).1 = (compute other key disk shelf).1 := by
  cases hother : shelf.cells[other]? with
  | none => rw [compute_of_absent hother, compute_of_absent (hcells.trans hother)]
  | some state =>
    obtain ⟨source, _ | value⟩ := state
    · rw [compute_of_unsettled hother, compute_of_unsettled (hcells.trans hother)]
      rcases call source key disk shelf with ⟨_ | _, _⟩ <;> rfl
    · rw [compute_of_settled (settled?_eq_some_iff.mpr ⟨source, hother⟩),
        compute_of_settled (settled?_eq_some_iff.mpr ⟨source, hcells.trans hother⟩)]

/-- A field that has been computed keeps its value. -/
theorem settled?_compute {value : Value} {after : Shelf}
    (hcompute : compute cell key disk shelf = (.ok value, after)) :
    after.settled? cell = some value := by
  cases hcell : shelf.cells[cell]? with
  | none =>
    rw [compute_of_absent hcell] at hcompute
    cases hcompute
  | some state =>
    obtain ⟨source, _ | kept⟩ := state
    · have hcall := cells_call source key disk shelf
      rw [compute_of_unsettled hcell] at hcompute
      rcases hrun : call source key disk shelf with ⟨error | given, between⟩
      · rw [hrun] at hcompute
        cases hcompute
      · rw [hrun] at hcompute hcall
        cases hcompute
        refine settled?_eq_some_iff.mpr ⟨source, ?_⟩
        rw [Array.getElem?_modify, if_pos rfl, hcall, hcell]
        rfl
    · have hsettled := settled?_eq_some_iff.mpr ⟨source, hcell⟩
      rw [compute_of_settled hsettled] at hcompute
      cases hcompute
      exact hsettled

end Shelf

namespace Row

variable {disk : Disk} {shelf after : Shelf} {row copy : Row} {key : String}

/-- The cell of a computed field. -/
def cellAt? (row : Row) (key : String) : Option Nat :=
  match row.slots.get? key with
  | some (.computed cell) => some cell
  | _ => none

theorem cellAt?_eq_some_iff {cell : Nat} :
    row.cellAt? key = some cell ↔ row.slots.get? key = some (.computed cell) := by
  unfold cellAt?
  rcases row.slots.get? key with _ | _ | _ | _ | _ <;> simp

/-- The computed fields of a row have cells of their own on the shelf. -/
structure Housed (shelf : Shelf) (row : Row) : Prop where
  bound (key : String) (cell : Nat) (hcell : row.cellAt? key = some cell) : cell < shelf.cells.size
  own (key other : String) (cell : Nat) (hcell : row.cellAt? key = some cell)
    (hother : row.cellAt? other = some cell) : key = other

theorem Housed.mono {shelf after : Shelf} {row : Row} (h : row.Housed shelf)
    (hsize : shelf.cells.size ≤ after.cells.size) : row.Housed after where
  bound key cell hcell := Nat.lt_of_lt_of_le (h.bound key cell hcell) hsize
  own := h.own

/-- Two rows have no cell in common. -/
def Apart (left right : Row) : Prop :=
  ∀ key other cell, left.cellAt? key = some cell → right.cellAt? other ≠ some cell

theorem Apart.symm {left right : Row} (h : left.Apart right) : right.Apart left :=
  fun key other cell hright hleft => h other key cell hleft hright

/-! ## Reading a field -/

theorem get?_of_some {slot : Slot} (hslot : row.slots.get? key = some slot) (disk : Disk)
    (shelf : Shelf) :
    row.get? key disk shelf = ((readSlot key slot disk shelf).1.map some,
      (readSlot key slot disk shelf).2) := by
  unfold get?
  rw [hslot]
  show (readSlot key slot >>= fun value => return some value : Reading (Option Value))
    disk shelf = _
  rw [Reading.bind_apply]
  rcases readSlot key slot disk shelf with ⟨_ | _, _⟩ <;> rfl

theorem get?_of_none (hslot : row.slots.get? key = none) (disk : Disk) (shelf : Shelf) :
    row.get? key disk shelf = (.ok none, shelf) := by
  unfold get?
  rw [hslot]
  rfl

/-- Reading a field changes at most the cell of that field. -/
theorem cells_get? (row : Row) (key : String) (disk : Disk) (shelf : Shelf) :
    (row.get? key disk shelf).2.cells = shelf.cells ∨
      ∃ cell change, row.cellAt? key = some cell ∧
        (row.get? key disk shelf).2.cells = shelf.cells.modify cell change := by
  cases hslot : row.slots.get? key with
  | none =>
    rw [get?_of_none hslot]
    exact Or.inl rfl
  | some slot =>
    rw [get?_of_some hslot]
    cases slot with
    | value value => exact Or.inl rfl
    | metric loader =>
      refine Or.inl ?_
      show (Shelf.fetchMetric loader key disk shelf).2.cells = shelf.cells
      unfold Shelf.fetchMetric
      cases shelf.metrics[loader]? <;> rfl
    | artifacts loader =>
      refine Or.inl ?_
      show (Shelf.fetchArtifacts loader key disk shelf).2.cells = shelf.cells
      unfold Shelf.fetchArtifacts
      cases shelf.artifacts[loader]? <;> rfl
    | computed cell =>
      obtain hsame | ⟨value, -, hmodify⟩ := Shelf.cells_compute cell key disk shelf
      · exact Or.inl hsame
      · exact Or.inr ⟨cell, _, cellAt?_eq_some_iff.mpr hslot, hmodify⟩

theorem getElem?_cells_get? {cell : Nat} (hcell : row.cellAt? key ≠ some cell) :
    (row.get? key disk shelf).2.cells[cell]? = shelf.cells[cell]? := by
  obtain hsame | ⟨own, change, hown, hmodify⟩ := cells_get? row key disk shelf
  · rw [hsame]
  · have hother : own ≠ cell := by
      rintro rfl
      exact hcell hown
    rw [hmodify, Array.getElem?_modify, if_neg hother]

theorem size_cells_get? (row : Row) (key : String) (disk : Disk) (shelf : Shelf) :
    (row.get? key disk shelf).2.cells.size = shelf.cells.size := by
  obtain hsame | ⟨cell, change, -, hmodify⟩ := cells_get? row key disk shelf
  · rw [hsame]
  · rw [hmodify, Array.size_modify]

/-- A computed field that has been read has the value that it gave. -/
theorem settled?_get? {cell : Nat} {value : Value} (hcell : row.cellAt? key = some cell)
    (hget : row.get? key disk shelf = (.ok (some value), after)) :
    after.settled? cell = some value := by
  rw [get?_of_some (cellAt?_eq_some_iff.mp hcell)] at hget
  rcases hcompute : Shelf.compute cell key disk shelf with ⟨error | given, between⟩
  · rw [readSlot, hcompute] at hget
    cases hget
  · rw [readSlot, hcompute] at hget
    cases hget
    exact Shelf.settled?_compute hcompute

theorem get?_of_settled {cell : Nat} {value : Value} (hcell : row.cellAt? key = some cell)
    (hsettled : shelf.settled? cell = some value) :
    (row.get? key disk shelf).1 = .ok (some value) := by
  rw [get?_of_some (cellAt?_eq_some_iff.mp hcell), readSlot, Shelf.compute_of_settled hsettled]
  rfl

/-- Two rows give the same at a key if they have the same slot there. -/
theorem get?_congr {other : Row} (hslots : row.slots.get? key = other.slots.get? key) :
    row.get? key = other.get? key := by
  unfold get?
  rw [hslots]

/-- Two rows give the same at a key if they have the same in their cells there. -/
theorem get?_congr_of_cells {other : Row} {cell otherCell : Nat}
    (hcell : row.cellAt? key = some cell) (hother : other.cellAt? key = some otherCell)
    (hcells : shelf.cells[cell]? = shelf.cells[otherCell]?) :
    (row.get? key disk shelf).1 = (other.get? key disk shelf).1 := by
  rw [get?_of_some (cellAt?_eq_some_iff.mp hcell), get?_of_some (cellAt?_eq_some_iff.mp hother)]
  exact congrArg (Except.map some) (Shelf.compute_congr hcells)

/-! ## Copying a row -/

/-- A row and its copy: loaders and values are shared, and what is in a cell is put into
a new one. -/
structure CopiedTo (shelf after : Shelf) (row copy : Row) : Prop where
  id : copy.id = row.id
  metrics : copy.metrics = row.metrics
  artifacts : copy.artifacts = row.artifacts
  plain (key : String) (hplain : row.cellAt? key = none) :
    copy.slots.get? key = row.slots.get? key
  cell (key : String) (cell : Nat) (hcell : row.cellAt? key = some cell) :
    ∃ new, copy.cellAt? key = some new ∧ shelf.cells.size ≤ new ∧ new < after.cells.size ∧
      after.cells[new]? = shelf.cells[cell]?
  own (key other : String) (cell : Nat) (hcell : copy.cellAt? key = some cell)
    (hother : copy.cellAt? other = some cell) : key = other
  kept (cell : Nat) (hcell : cell < shelf.cells.size) : after.cells[cell]? = shelf.cells[cell]?
  size_le : shelf.cells.size ≤ after.cells.size

/-- What copying some fields has done to a row that had them. -/
private structure CopiesFields (shelf after : Shelf) (fields : List (String × Slot))
    (row copy : Row) : Prop where
  id : copy.id = row.id
  metrics : copy.metrics = row.metrics
  artifacts : copy.artifacts = row.artifacts
  untouched (key : String) (hplain : ∀ cell, (key, .computed cell) ∉ fields) :
    copy.slots.get? key = row.slots.get? key
  moved (key : String) (cell : Nat) (hcell : (key, .computed cell) ∈ fields) :
    ∃ new, copy.slots.get? key = some (.computed new) ∧ shelf.cells.size ≤ new ∧
      new < after.cells.size ∧ after.cells[new]? = shelf.cells[cell]?
  own (key other : String) (first second new : Nat) (hkey : (key, .computed first) ∈ fields)
    (hother : (other, .computed second) ∈ fields)
    (hfirst : copy.slots.get? key = some (.computed new))
    (hsecond : copy.slots.get? other = some (.computed new)) : key = other
  kept (cell : Nat) (hcell : cell < shelf.cells.size) : after.cells[cell]? = shelf.cells[cell]?
  size_le : shelf.cells.size ≤ after.cells.size

private theorem CopiesFields.cons_plain {fields : List (String × Slot)} {slot : Slot}
    (h : CopiesFields shelf after fields row copy) (hslot : ∀ cell, slot ≠ .computed cell) :
    CopiesFields shelf after ((key, slot) :: fields) row copy := by
  have hmem : ∀ other cell, (other, Slot.computed cell) ∈ (key, slot) :: fields →
      (other, Slot.computed cell) ∈ fields := by
    intro other cell hmem
    obtain heq | hrest := List.mem_cons.mp hmem
    · exact absurd (Prod.mk.inj heq).2.symm (hslot cell)
    · exact hrest
  exact {
    id := h.id
    metrics := h.metrics
    artifacts := h.artifacts
    untouched := fun other hplain =>
      h.untouched other fun cell hcell => hplain cell (List.mem_cons_of_mem _ hcell)
    moved := fun other cell hcell => h.moved other cell (hmem other cell hcell)
    own := fun one other first second new hone hother =>
      h.own one other first second new (hmem one first hone) (hmem other second hother)
    kept := h.kept
    size_le := h.size_le }

private theorem CopiesFields.cons_computed {fields : List (String × Slot)} {cell : Nat}
    {state : Cell} (hcell : shelf.cells[cell]? = some state) (hkey : key ∉ fields.map Prod.fst)
    (hbound : ∀ other cell, (other, .computed cell) ∈ fields → cell < shelf.cells.size)
    (h : CopiesFields (shelf.addCell state).2 after fields
      (row.insert key (.computed shelf.cells.size)) copy) :
    CopiesFields shelf after ((key, .computed cell) :: fields) row copy := by
  have hsize : (shelf.addCell state).2.cells.size = shelf.cells.size + 1 := Array.size_push state
  have hold : ∀ cell, cell < shelf.cells.size →
      (shelf.addCell state).2.cells[cell]? = shelf.cells[cell]? := fun cell hcell =>
    (Array.getElem?_push_lt hcell).trans (Array.getElem?_eq_getElem hcell).symm
  have hnew : (shelf.addCell state).2.cells[shelf.cells.size]? = some state :=
    Array.getElem?_push_size
  have habsent : ∀ cell, (key, Slot.computed cell) ∉ fields := fun cell hmem =>
    hkey (List.mem_map.mpr ⟨_, hmem, rfl⟩)
  -- The new cell is the first behind the old ones, and the rest comes behind it.
  have hhead : copy.slots.get? key = some (.computed shelf.cells.size) := by
    rw [h.untouched key habsent]
    exact SortedMap.get?_insert_self _ _ _
  have hbehind : ∀ other first new, (other, Slot.computed first) ∈ fields →
      copy.slots.get? other = some (.computed new) → shelf.cells.size < new := by
    intro other first new hmem hslot
    obtain ⟨found, hfound, hle, -⟩ := h.moved other first hmem
    obtain rfl : found = new := Slot.computed.inj (Option.some_inj.mp (hfound.symm.trans hslot))
    omega
  refine {
    id := h.id
    metrics := h.metrics
    artifacts := h.artifacts
    untouched := fun other hplain => ?untouched
    moved := fun other first hmem => ?moved
    own := fun one other first second new hone hother hfirst hsecond => ?own
    kept := fun old hlt => ?kept
    size_le := ?size }
  case untouched =>
    have hother : other ≠ key := fun heq => hplain cell (heq ▸ List.mem_cons_self)
    rw [h.untouched other fun cell hcell => hplain cell (List.mem_cons_of_mem _ hcell)]
    exact (SortedMap.get?_insert _ _ _ _).trans (if_neg hother)
  case moved =>
    obtain heq | hrest := List.mem_cons.mp hmem
    · obtain ⟨rfl, hslot⟩ := Prod.mk.inj heq
      obtain rfl : first = cell := Slot.computed.inj hslot
      refine ⟨shelf.cells.size, hhead, Nat.le_refl _, ?_, ?_⟩
      · have := h.size_le
        omega
      · rw [h.kept _ (by omega), hnew, hcell]
    · obtain ⟨new, hslot, hle, hlt, hcontents⟩ := h.moved other first hrest
      exact ⟨new, hslot, by omega, hlt, hcontents.trans (hold first (hbound other first hrest))⟩
  case own =>
    obtain honeHead | honeRest := List.mem_cons.mp hone <;>
      obtain hotherHead | hotherRest := List.mem_cons.mp hother
    · exact (Prod.mk.inj honeHead).1.trans (Prod.mk.inj hotherHead).1.symm
    · rw [(Prod.mk.inj honeHead).1, hhead] at hfirst
      have hlt := hbehind other second new hotherRest hsecond
      have heq := Slot.computed.inj (Option.some_inj.mp hfirst)
      omega
    · rw [(Prod.mk.inj hotherHead).1, hhead] at hsecond
      have hlt := hbehind one first new honeRest hfirst
      have heq := Slot.computed.inj (Option.some_inj.mp hsecond)
      omega
    · exact h.own one other first second new honeRest hotherRest hfirst hsecond
  case kept => exact (h.kept old (by omega)).trans (hold old hlt)
  case size =>
    have := h.size_le
    omega

private theorem copiesFields_copyFields (fields : List (String × Slot)) (row : Row) (shelf : Shelf)
    (hkeys : (fields.map Prod.fst).Nodup)
    (hbound : ∀ key cell, (key, .computed cell) ∈ fields → cell < shelf.cells.size) :
    CopiesFields shelf (row.copyFields shelf fields).2 fields row
      (row.copyFields shelf fields).1 := by
  induction fields generalizing row shelf with
  | nil => exact ⟨rfl, rfl, rfl, fun _ _ => rfl, by simp, by simp, fun _ _ => rfl, Nat.le_refl _⟩
  | cons field fields ih =>
    obtain ⟨key, slot⟩ := field
    obtain ⟨hkey, hrest⟩ := List.nodup_cons.mp hkeys
    have hboundRest : ∀ other cell, (other, Slot.computed cell) ∈ fields →
        cell < shelf.cells.size := fun other cell hmem =>
      hbound other cell (List.mem_cons_of_mem _ hmem)
    cases slot with
    | computed cell =>
      have hlt : cell < shelf.cells.size := hbound key cell List.mem_cons_self
      have hcell : shelf.cells[cell]? = some shelf.cells[cell] := Array.getElem?_eq_getElem hlt
      have hcopy : row.copyFields shelf ((key, .computed cell) :: fields) =
          (row.insert key (.computed shelf.cells.size)).copyFields
            (shelf.addCell shelf.cells[cell]).2 fields := by
        rw [copyFields, Shelf.copyCell, hcell]
        rfl
      rw [hcopy]
      refine CopiesFields.cons_computed hcell hkey hboundRest (ih _ _ hrest ?_)
      intro other first hmem
      have := hboundRest other first hmem
      have hsize : (shelf.addCell shelf.cells[cell]).2.cells.size = shelf.cells.size + 1 :=
        Array.size_push _
      omega
    | value value => exact (ih row shelf hrest hboundRest).cons_plain (by simp)
    | metric loader => exact (ih row shelf hrest hboundRest).cons_plain (by simp)
    | artifacts loader => exact (ih row shelf hrest hboundRest).cons_plain (by simp)

/-- **Copying a row succeeds, and puts what is in its cells into new ones.** -/
theorem copiedTo_copy (hhoused : row.Housed shelf) (disk : Disk) :
    ∃ copy after, row.copy disk shelf = (.ok copy, after) ∧ CopiedTo shelf after row copy := by
  have hmem : ∀ key cell, (key, Slot.computed cell) ∈ row.slots.entries ↔
      row.cellAt? key = some cell := fun key cell => by
    rw [cellAt?_eq_some_iff, SortedMap.get?_eq_some_iff]
  have hfields := copiesFields_copyFields row.slots.entries row shelf row.slots.nodup_keys
    fun key cell hcell => hhoused.bound key cell ((hmem key cell).mp hcell)
  refine ⟨_, _, rfl, ?_⟩
  have hplain : ∀ key, row.cellAt? key = none →
      (row.copyFields shelf row.slots.entries).1.slots.get? key = row.slots.get? key := by
    intro key hnone
    refine hfields.untouched key fun cell hcell => ?_
    rw [(hmem key cell).mp hcell] at hnone
    cases hnone
  have hsource : ∀ key new, (row.copyFields shelf row.slots.entries).1.cellAt? key = some new →
      ∃ cell, (key, Slot.computed cell) ∈ row.slots.entries := by
    intro key new hnew
    cases hcell : row.cellAt? key with
    | some cell => exact ⟨cell, (hmem key cell).mpr hcell⟩
    | none =>
      rw [cellAt?_eq_some_iff, hplain key hcell, ← cellAt?_eq_some_iff, hcell] at hnew
      cases hnew
  refine ⟨hfields.id, hfields.metrics, hfields.artifacts, hplain, ?_, ?_, hfields.kept,
    hfields.size_le⟩
  · intro key cell hcell
    obtain ⟨new, hslot, hle, hlt, hcontents⟩ := hfields.moved key cell ((hmem key cell).mpr hcell)
    exact ⟨new, cellAt?_eq_some_iff.mpr hslot, hle, hlt, hcontents⟩
  · intro key other new hkey hother
    obtain ⟨first, hfirst⟩ := hsource key new hkey
    obtain ⟨second, hsecond⟩ := hsource other new hother
    exact hfields.own key other first second new hfirst hsecond (cellAt?_eq_some_iff.mp hkey)
      (cellAt?_eq_some_iff.mp hother)

/-- A row without computed fields is its own copy. -/
theorem copy_of_plain (hplain : ∀ key, row.cellAt? key = none) (disk : Disk) (shelf : Shelf) :
    row.copy disk shelf = (.ok row, shelf) := by
  -- Only a computed field gets a new slot.
  have hcopy : ∀ fields : List (String × Slot), (∀ key cell, (key, .computed cell) ∉ fields) →
      row.copyFields shelf fields = (row, shelf) := by
    intro fields hfields
    induction fields with
    | nil => rfl
    | cons field fields ih =>
      obtain ⟨key, slot⟩ := field
      have hrest : ∀ key cell, (key, .computed cell) ∉ fields := fun key cell hmem =>
        hfields key cell (List.mem_cons_of_mem _ hmem)
      cases slot with
      | computed cell => exact absurd List.mem_cons_self (hfields key cell)
      | value value => exact ih hrest
      | metric loader => exact ih hrest
      | artifacts loader => exact ih hrest
  have hnone : ∀ key cell, (key, Slot.computed cell) ∉ row.slots.entries := by
    intro key cell hmem
    have hcell := cellAt?_eq_some_iff.mpr (SortedMap.get?_eq_some_iff.mpr hmem)
    rw [hplain key] at hcell
    cases hcell
  exact congrArg (fun copied : Row × Shelf => (Except.ok copied.1, copied.2))
    (hcopy row.slots.entries hnone)

end Row

end Logbook
