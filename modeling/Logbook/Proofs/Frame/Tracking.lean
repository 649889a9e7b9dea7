import Logbook.Frame.Grouping
import Logbook.Proofs.Row.Steady

/-!
# Rows on their way through a grouping

A grouping reads the rows of a frame, releases them, and goes on with copies, which the
next grouping reads and copies again.  This file follows each row on its way: a `Tracked`
item has the row of the frame, the copy that stands for it now, and the values that were
read so far.

## Strategy

The invariant is `Tracked.Invariant`.  A copy has the slots of its row, except that a
computed field has moved to a cell of its own.  As long as the field has not been read,
that cell holds what the cell of the row held at the start, and the cell of the row
itself still does.  So reading the copy is reading the row (`Tracked.Sound.gave_get?`).
Once the field has been read, the cell has the value that was read.  For a steady field that is the
value that the row gives at the start, so the copy gives this value at any time
(`Tracked.Sound.get?_eq_start`).

No two items share a cell, so a step on one of them is a step beside all others
(`Tracked.Sound.of_spared`).
-/

namespace Logbook

/-- At some moment between two shelves the row gives the value at the key. -/
def Row.Gave (disk : Disk) (before after : Shelf) (row : Row) (key : String) (value : Value) :
    Prop :=
  ∃ moment, before.Later disk moment ∧ moment.Later disk after ∧
    (row.get? key disk moment).1 = .ok (some value)

theorem Row.Gave.mono {disk : Disk} {before after last : Shelf} {row : Row} {key : String}
    {value : Value} (h : row.Gave disk before after key value) (hlast : after.Later disk last) :
    row.Gave disk before last key value := by
  obtain ⟨moment, hbefore, hafter, hvalue⟩ := h
  exact ⟨moment, hbefore, hafter.trans hlast, hvalue⟩

/-- A row of a frame on its way through groupings. -/
structure Tracked where
  /-- The row of the frame. -/
  source : Row
  /-- The copy that stands for it. -/
  row : Row
  /-- The values that were read, by key. -/
  given : List (String × Value) := []

namespace Tracked

/-- The copy stands for the row, but for the fields that were read. -/
structure Sound (disk : Disk) (start now : Shelf) (item : Tracked) : Prop where
  id : item.row.id = item.source.id
  metrics : item.row.metrics = item.source.metrics
  artifacts : item.row.artifacts = item.source.artifacts
  sourceHoused : item.source.Housed start
  rowHoused : item.row.Housed now
  plain (key : String) (hplain : item.source.cellAt? key = none) :
    item.row.slots.get? key = item.source.slots.get? key
  cell (key : String) (cell : Nat) (hcell : item.source.cellAt? key = some cell) :
    ∃ held, item.row.cellAt? key = some held ∧ (held = cell ∨ start.cells.size ≤ held)
  unread (key : String) (cell held : Nat) (hcell : item.source.cellAt? key = some cell)
    (hheld : item.row.cellAt? key = some held) (hkey : key ∉ item.given.map Prod.fst) :
    now.cells[held]? = start.cells[cell]?
  untouched (key : String) (cell : Nat) (hcell : item.source.cellAt? key = some cell)
    (hkey : key ∉ item.given.map Prod.fst) : now.cells[cell]? = start.cells[cell]?
  settled (key : String) (held : Nat) (value : Value) (hheld : item.row.cellAt? key = some held)
    (hgiven : (key, value) ∈ item.given) : now.settled? held = some value
  gave (key : String) (value : Value) (hgiven : (key, value) ∈ item.given) :
    item.source.Gave disk start now key value
  steady (hfaithful : start.Faithful disk) (key : String) (value : Value)
    (hsteady : item.source.Steady start key) (hgiven : (key, value) ∈ item.given) :
    (item.source.get? key disk start).1 = .ok (some value)

/-- Two items have no cell in common. -/
def Apart (left right : Tracked) : Prop :=
  left.source.Apart right.source ∧ left.row.Apart right.row

theorem Apart.symm {left right : Tracked} (h : left.Apart right) : right.Apart left :=
  ⟨h.1.symm, h.2.symm⟩

/-- All copies stand for their rows, and no two items share a cell. -/
structure Invariant (disk : Disk) (start now : Shelf) (items : List Tracked) : Prop where
  later : start.Later disk now
  size_le : start.cells.size ≤ now.cells.size
  sound (item : Tracked) (hitem : item ∈ items) : item.Sound disk start now
  apart : items.Pairwise Apart

variable {disk : Disk} {start now after : Shelf} {item other : Tracked} {items : List Tracked}
  {key : String} {value : Value}

theorem Invariant.perm {permuted : List Tracked} (h : Invariant disk start now items)
    (hperm : permuted.Perm items) : Invariant disk start now permuted where
  later := h.later
  size_le := h.size_le
  sound item hitem := h.sound item (hperm.mem_iff.mp hitem)
  apart := (hperm.pairwise_iff fun {_ _} => Apart.symm).mpr h.apart

/-- Which values were read matters, not in which order. -/
theorem Sound.congr_given {given : List (String × Value)} (h : item.Sound disk start now)
    (hgiven : ∀ entry, entry ∈ given ↔ entry ∈ item.given) :
    ({ item with given := given } : Tracked).Sound disk start now := by
  have hkeys : ∀ key, key ∈ given.map Prod.fst ↔ key ∈ item.given.map Prod.fst := fun key => by
    simp only [List.mem_map, hgiven]
  exact {
    h with
    unread := fun key cell held hcell hheld hkey =>
      h.unread key cell held hcell hheld fun hmem => hkey ((hkeys key).mpr hmem)
    untouched := fun key cell hcell hkey =>
      h.untouched key cell hcell fun hmem => hkey ((hkeys key).mpr hmem)
    settled := fun key held value hheld hmem =>
      h.settled key held value hheld ((hgiven _).mp hmem)
    gave := fun key value hmem => h.gave key value ((hgiven _).mp hmem)
    steady := fun hfaithful key value hsteady hmem =>
      h.steady hfaithful key value hsteady ((hgiven _).mp hmem) }

theorem Invariant.congr_given {given : List (String × Value)} {others : List Tracked}
    (h : Invariant disk start now (item :: others))
    (hgiven : ∀ entry, entry ∈ given ↔ entry ∈ item.given) :
    Invariant disk start now ({ item with given := given } :: others) where
  later := h.later
  size_le := h.size_le
  sound found hfound := by
    obtain rfl | hmem := List.mem_cons.mp hfound
    · exact (h.sound item List.mem_cons_self).congr_given hgiven
    · exact h.sound found (List.mem_cons_of_mem _ hmem)
  apart := by
    obtain ⟨hapart, hothers⟩ := List.pairwise_cons.mp h.apart
    exact List.pairwise_cons.mpr ⟨hapart, hothers⟩

/-- A step that leaves the cells of an item alone. -/
theorem Sound.of_spared (h : item.Sound disk start now) (hlater : now.Later disk after)
    (hsize : now.cells.size ≤ after.cells.size)
    (hrow : ∀ key cell, item.row.cellAt? key = some cell → after.cells[cell]? = now.cells[cell]?)
    (hsource : ∀ key cell, item.source.cellAt? key = some cell →
      after.cells[cell]? = now.cells[cell]?) : item.Sound disk start after where
  id := h.id
  metrics := h.metrics
  artifacts := h.artifacts
  sourceHoused := h.sourceHoused
  rowHoused := h.rowHoused.mono hsize
  plain := h.plain
  cell := h.cell
  unread key cell held hcell hheld hkey :=
    (hrow key held hheld).trans (h.unread key cell held hcell hheld hkey)
  untouched key cell hcell hkey := (hsource key cell hcell).trans (h.untouched key cell hcell hkey)
  settled key held value hheld hgiven := by
    unfold Shelf.settled?
    rw [hrow key held hheld]
    exact h.settled key held value hheld hgiven
  gave key value hgiven := (h.gave key value hgiven).mono hlater
  steady := h.steady

/-- A cell of the copy comes from a cell of the row, or is behind all that there were. -/
theorem Sound.source_of_cellAt? (h : item.Sound disk start now) {held : Nat}
    (hheld : item.row.cellAt? key = some held) :
    ∃ cell, item.source.cellAt? key = some cell ∧ (held = cell ∨ start.cells.size ≤ held) := by
  cases hcell : item.source.cellAt? key with
  | none =>
    rw [Row.cellAt?_eq_some_iff, h.plain key hcell, ← Row.cellAt?_eq_some_iff, hcell] at hheld
    cases hheld
  | some cell =>
    obtain ⟨found, hfound, hcases⟩ := h.cell key cell hcell
    obtain rfl : found = held := Option.some_inj.mp (hfound.symm.trans hheld)
    exact ⟨cell, rfl, hcases⟩

/-- The copy of one item does not use the cells of the row of another. -/
theorem Sound.ne_source (h : item.Sound disk start now) (hother : other.Sound disk start now)
    (hapart : item.Apart other) {held : Nat} (hheld : item.row.cellAt? key = some held)
    (otherKey : String) : other.source.cellAt? otherKey ≠ some held := by
  intro hcell
  obtain ⟨cell, hsource, rfl | hbehind⟩ := h.source_of_cellAt? hheld
  · exact hapart.1 key otherKey held hsource hcell
  · have hbound := hother.sourceHoused.bound otherKey held hcell
    omega

/-- The copy does not use a cell of its row for another field. -/
theorem Sound.eq_of_source (h : item.Sound disk start now) {held : Nat}
    (hheld : item.row.cellAt? key = some held) {otherKey : String}
    (hcell : item.source.cellAt? otherKey = some held) : otherKey = key := by
  obtain ⟨cell, hsource, rfl | hbehind⟩ := h.source_of_cellAt? hheld
  · exact h.sourceHoused.own otherKey key held hcell hsource
  · have hbound := h.sourceHoused.bound otherKey held hcell
    omega

/-! ## Reading a field -/

/-- What the copy gives, the row gives or has given. -/
theorem Sound.gave_get? (h : item.Sound disk start now) (hstart : start.Later disk now)
    (hget : item.row.get? key disk now = (.ok (some value), after)) :
    item.source.Gave disk start after key value := by
  have hafter : after = (item.row.get? key disk now).2 := by rw [hget]
  have hlater : now.Later disk after := hafter ▸ Shelf.Later.get? item.row key .refl
  have hvalue : (item.row.get? key disk now).1 = .ok (some value) := by rw [hget]
  cases hcell : item.source.cellAt? key with
  | none =>
    refine ⟨now, hstart, hlater, ?_⟩
    rw [← Row.get?_congr (h.plain key hcell)]
    exact hvalue
  | some cell =>
    obtain ⟨held, hheld, -⟩ := h.cell key cell hcell
    -- A field that was read before has its value; another one is as it was at the start.
    by_cases hread : key ∈ item.given.map Prod.fst
    · obtain ⟨⟨_, kept⟩, hgiven, rfl⟩ := List.mem_map.mp hread
      rw [Row.get?_of_settled hheld (h.settled _ held kept hheld hgiven)] at hvalue
      obtain rfl : kept = value := Option.some_inj.mp (Except.ok.inj hvalue)
      exact (h.gave _ kept hgiven).mono hlater
    · refine ⟨now, hstart, hlater, ?_⟩
      have hsame : now.cells[cell]? = now.cells[held]? :=
        (h.untouched key cell hcell hread).trans (h.unread key cell held hcell hheld hread).symm
      rw [Row.get?_congr_of_cells hcell hheld hsame]
      exact hvalue

/-- **Reading the copy of a steady field gives what the row gave at the start.** -/
theorem Sound.get?_eq_start (h : item.Sound disk start now) (hlater : start.Later disk now)
    (hfaithful : start.Faithful disk) (hsteady : item.source.Steady start key) :
    (item.row.get? key disk now).1 = (item.source.get? key disk start).1 := by
  cases hcell : item.source.cellAt? key with
  | none =>
    rw [Row.get?_congr (h.plain key hcell)]
    exact Row.get?_of_later hfaithful hlater hcell
  | some cell =>
    obtain ⟨held, hheld, -⟩ := h.cell key cell hcell
    by_cases hread : key ∈ item.given.map Prod.fst
    · obtain ⟨⟨_, value⟩, hgiven, rfl⟩ := List.mem_map.mp hread
      rw [h.steady hfaithful _ value hsteady hgiven]
      exact Row.get?_of_settled hheld (h.settled _ held value hheld hgiven)
    · rw [Row.get?_of_some (Row.cellAt?_eq_some_iff.mp hheld),
        Row.get?_of_some (Row.cellAt?_eq_some_iff.mp hcell)]
      apply congrArg (Except.map some)
      apply Shelf.compute_of_steady hlater (h.unread key cell held hcell hheld hread)
      exact fun source state => hsteady cell source state hcell

/-- A steady field is steady in the copy too. -/
theorem Sound.steady_row (h : item.Sound disk start now) (hlater : start.Later disk now)
    (hsteady : item.source.Steady start key) : item.row.Steady now key := by
  intro held called state hheld hcell hstate
  -- The field has no value yet, so it has not been read, and is as it was at the start.
  have hunread : key ∉ item.given.map Prod.fst := by
    intro hread
    obtain ⟨⟨_, value⟩, hgiven, rfl⟩ := List.mem_map.mp hread
    have hsettled := h.settled _ held value hheld hgiven
    unfold Shelf.settled? at hsettled
    rw [hcell] at hsettled
    cases hsettled
  obtain ⟨cell, hsource, -⟩ := h.source_of_cellAt? hheld
  have hsame := h.unread key cell held hsource hheld hunread
  have hfunctions := hlater.functions called
  rw [hstate] at hfunctions
  obtain ⟨former, hformer, hanswer⟩ := Option.map_eq_some_iff.mp hfunctions.symm
  rw [← hanswer]
  exact hsteady cell called former hsource (hsame.symm.trans hcell) hformer

theorem Sound.get? (h : item.Sound disk start now) (hstart : start.Later disk now)
    (hget : item.row.get? key disk now = (.ok (some value), after)) :
    ({ item with given := (key, value) :: item.given } : Tracked).Sound disk start after := by
  have hafter : after = (item.row.get? key disk now).2 := by rw [hget]
  have hlater : now.Later disk after := hafter ▸ Shelf.Later.get? item.row key .refl
  have hsize : after.cells.size = now.cells.size :=
    hafter ▸ Row.size_cells_get? item.row key disk now
  have hspared : ∀ cell, item.row.cellAt? key ≠ some cell → after.cells[cell]? = now.cells[cell]? :=
    fun cell hcell => hafter ▸ Row.getElem?_cells_get? hcell
  have hunread : ∀ other, other ∉ ((key, value) :: item.given).map Prod.fst →
      other ≠ key ∧ other ∉ item.given.map Prod.fst := fun other hother => by
    simpa using hother
  exact {
    id := h.id
    metrics := h.metrics
    artifacts := h.artifacts
    sourceHoused := h.sourceHoused
    rowHoused := ⟨fun other cell hcell => by
      rw [hsize]
      exact h.rowHoused.bound other cell hcell, h.rowHoused.own⟩
    plain := h.plain
    cell := h.cell
    unread := fun other cell held hcell hheld hother => by
      obtain ⟨hne, hold⟩ := hunread other hother
      rw [hspared held fun hkey => hne (h.rowHoused.own other key held hheld hkey)]
      exact h.unread other cell held hcell hheld hold
    untouched := fun other cell hcell hother => by
      obtain ⟨hne, hold⟩ := hunread other hother
      rw [hspared cell fun hkey => hne (h.eq_of_source hkey hcell)]
      exact h.untouched other cell hcell hold
    settled := fun other held given hheld hother => by
      obtain heq | hold := List.mem_cons.mp hother
      · obtain ⟨rfl, rfl⟩ := Prod.mk.inj heq
        exact Row.settled?_get? hheld hget
      have hkept := h.settled other held given hheld hold
      by_cases hkey : other = key
      · -- Reading the field again gives the value that it has.
        subst hkey
        have hsame : (item.row.get? other disk now).1 = .ok (some value) := by rw [hget]
        rw [Row.get?_of_settled hheld hkept] at hsame
        rw [Option.some_inj.mp (Except.ok.inj hsame)]
        exact Row.settled?_get? hheld hget
      · unfold Shelf.settled?
        rw [hspared held fun hcell => hkey (h.rowHoused.own other key held hheld hcell)]
        exact hkept
    gave := fun other given hgiven => by
      obtain heq | hold := List.mem_cons.mp hgiven
      · obtain ⟨rfl, rfl⟩ := Prod.mk.inj heq
        exact h.gave_get? hstart hget
      · exact (h.gave other given hold).mono hlater
    steady := fun hfaithful other given hsteady hgiven => by
      obtain heq | hold := List.mem_cons.mp hgiven
      · obtain ⟨rfl, rfl⟩ := Prod.mk.inj heq
        rw [← h.get?_eq_start hstart hfaithful hsteady, hget]
      · exact h.steady hfaithful other given hsteady hold }

/-- Reading one row leaves the others as they are. -/
theorem Invariant.get? {others : List Tracked} (h : Invariant disk start now (item :: others))
    (hget : item.row.get? key disk now = (.ok (some value), after)) :
    Invariant disk start after ({ item with given := (key, value) :: item.given } :: others) := by
  have hafter : after = (item.row.get? key disk now).2 := by rw [hget]
  have hlater : now.Later disk after := hafter ▸ Shelf.Later.get? item.row key .refl
  have hitem := h.sound item List.mem_cons_self
  obtain ⟨hapart, hothers⟩ := List.pairwise_cons.mp h.apart
  have hsize : now.cells.size = after.cells.size := by rw [hafter, Row.size_cells_get?]
  refine ⟨h.later.trans hlater, hsize ▸ h.size_le, fun found hfound => ?_,
    List.pairwise_cons.mpr ⟨hapart, hothers⟩⟩
  obtain rfl | hmem := List.mem_cons.mp hfound
  · exact hitem.get? h.later hget
  have hother := h.sound found (List.mem_cons_of_mem _ hmem)
  refine hother.of_spared hlater (Nat.le_of_eq hsize) ?_ ?_
  · intro otherKey cell hcell
    rw [hafter]
    exact Row.getElem?_cells_get? fun hkey => (hapart found hmem).2 key otherKey cell hkey hcell
  · intro otherKey cell hcell
    rw [hafter]
    exact Row.getElem?_cells_get? fun hkey =>
      hitem.ne_source hother (hapart found hmem) hkey otherKey hcell

/-! ## Releasing and copying -/

/-- Releasing a row touches no cell. -/
theorem Invariant.release (h : Invariant disk start now items) (row : Row) :
    Invariant disk start (row.release disk now).2 items := by
  have hlater : now.Later disk (row.release disk now).2 := .release row .refl
  refine ⟨h.later.trans hlater, h.size_le, fun item hitem => ?_, h.apart⟩
  exact (h.sound item hitem).of_spared hlater (Nat.le_refl _) (fun _ _ _ => rfl) fun _ _ _ => rfl

theorem Sound.copy {copy : Row} (h : item.Sound disk start now) (hlater : now.Later disk after)
    (hstart : start.cells.size ≤ now.cells.size) (hcopy : Row.CopiedTo now after item.row copy) :
    ({ item with row := copy } : Tracked).Sound disk start after := by
  -- Every cell of the copy has the contents of one of the row.
  have hold : ∀ key new, copy.cellAt? key = some new → ∃ held, item.row.cellAt? key = some held ∧
      now.cells.size ≤ new ∧ new < after.cells.size ∧ after.cells[new]? = now.cells[held]? := by
    intro key new hnew
    cases hheld : item.row.cellAt? key with
    | none =>
      rw [Row.cellAt?_eq_some_iff, hcopy.plain key hheld, ← Row.cellAt?_eq_some_iff, hheld] at hnew
      cases hnew
    | some held =>
      obtain ⟨found, hfound, hrest⟩ := hcopy.cell key held hheld
      obtain rfl : found = new := Option.some_inj.mp (hfound.symm.trans hnew)
      exact ⟨held, rfl, hrest⟩
  exact {
    id := hcopy.id.trans h.id
    metrics := hcopy.metrics.trans h.metrics
    artifacts := hcopy.artifacts.trans h.artifacts
    sourceHoused := h.sourceHoused
    rowHoused := ⟨fun key new hnew => by
      obtain ⟨held, -, -, hlt, -⟩ := hold key new hnew
      exact hlt, hcopy.own⟩
    plain := fun key hplain => by
      have hrow : item.row.cellAt? key = none := by
        unfold Row.cellAt? at hplain ⊢
        rw [h.plain key hplain]
        exact hplain
      exact (hcopy.plain key hrow).trans (h.plain key hplain)
    cell := fun key cell hcell => by
      obtain ⟨held, hheld, -⟩ := h.cell key cell hcell
      obtain ⟨new, hnew, hle, -⟩ := hcopy.cell key held hheld
      exact ⟨new, hnew, Or.inr (Nat.le_trans hstart hle)⟩
    unread := fun key cell new hcell hnew hkey => by
      obtain ⟨held, hheld, -, -, hcontents⟩ := hold key new hnew
      exact hcontents.trans (h.unread key cell held hcell hheld hkey)
    untouched := fun key cell hcell hkey => by
      have hbound : cell < now.cells.size :=
        Nat.lt_of_lt_of_le (h.sourceHoused.bound key cell hcell) hstart
      exact (hcopy.kept cell hbound).trans (h.untouched key cell hcell hkey)
    settled := fun key new value hnew hgiven => by
      obtain ⟨held, hheld, -, -, hcontents⟩ := hold key new hnew
      unfold Shelf.settled?
      rw [hcontents]
      exact h.settled key held value hheld hgiven
    gave := fun key value hgiven => (h.gave key value hgiven).mono hlater
    steady := h.steady }

/-- Copying a row puts its fields into new cells, which nothing else uses. -/
theorem Invariant.copy {others : List Tracked} (h : Invariant disk start now (item :: others)) :
    ∃ copy after, item.row.copy disk now = (.ok copy, after) ∧
      Invariant disk start after ({ item with row := copy } :: others) := by
  have hitem := h.sound item List.mem_cons_self
  obtain ⟨hapart, hothers⟩ := List.pairwise_cons.mp h.apart
  obtain ⟨copy, after, hcopy, hcopied⟩ := Row.copiedTo_copy hitem.rowHoused disk
  have hlater : now.Later disk (item.row.copy disk now).2 := .copy item.row .refl
  rw [hcopy] at hlater
  have hsound := hitem.copy hlater h.size_le hcopied
  -- The new cells are behind all that the others use.
  have hbehind : ∀ key new, copy.cellAt? key = some new → now.cells.size ≤ new := by
    intro key new hnew
    obtain ⟨cell, hcell, -⟩ := hsound.source_of_cellAt? hnew
    obtain ⟨held, hheld, -⟩ := hitem.cell key cell hcell
    obtain ⟨found, hfound, hle, -⟩ := hcopied.cell key held hheld
    obtain rfl : found = new := Option.some_inj.mp (hfound.symm.trans hnew)
    exact hle
  refine ⟨copy, after, hcopy, h.later.trans hlater, Nat.le_trans h.size_le hcopied.size_le,
    fun found hfound => ?_, List.pairwise_cons.mpr ⟨fun found hfound => ?_, hothers⟩⟩
  · obtain rfl | hmem := List.mem_cons.mp hfound
    · exact hsound
    have hother := h.sound found (List.mem_cons_of_mem _ hmem)
    refine hother.of_spared hlater hcopied.size_le ?_ ?_
    · exact fun key cell hcell => hcopied.kept cell (hother.rowHoused.bound key cell hcell)
    · exact fun key cell hcell => hcopied.kept cell
        (Nat.lt_of_lt_of_le (hother.sourceHoused.bound key cell hcell) h.size_le)
  · refine ⟨(hapart found hfound).1, fun key other cell hnew hcell => ?_⟩
    have hle := hbehind key cell hnew
    have hlt := (h.sound found (List.mem_cons_of_mem _ hfound)).rowHoused.bound other cell hcell
    omega

/-! ## Reading a row for a grouping -/

/-- Reading the keys of a grouping one after the other. -/
theorem Invariant.readTuple {others : List Tracked} {keys : List String} {position : Nat}
    {tuple : List Value} (h : Invariant disk start now (item :: others))
    (hread : keys.mapM (item.row.groupingValue position) disk now = (.ok tuple, after)) :
    tuple.length = keys.length ∧
      Invariant disk start after
        ({ item with given := keys.zip tuple ++ item.given } :: others) := by
  induction keys generalizing item now tuple with
  | nil =>
    obtain ⟨rfl, rfl⟩ : tuple = [] ∧ after = now := by
      cases hread
      exact ⟨rfl, rfl⟩
    exact ⟨rfl, h⟩
  | cons key keys ih =>
    rw [List.mapM_cons] at hread
    obtain ⟨value, between, hvalue, hrest⟩ := Reading.bind_eq_ok.mp hread
    obtain ⟨values, last, hvalues, hpure⟩ := Reading.bind_eq_ok.mp hrest
    obtain ⟨rfl, rfl⟩ : tuple = value :: values ∧ after = last := by
      cases hpure
      exact ⟨rfl, rfl⟩
    have hget : item.row.get? key disk now = (.ok (some value), between) := by
      obtain ⟨found, shelf, hget, hfound⟩ := Reading.bind_eq_ok.mp hvalue
      cases found with
      | none => cases hfound
      | some found =>
        cases hfound
        exact hget
    obtain ⟨hlength, hinvariant⟩ := ih (h.get? hget) hvalues
    refine ⟨congrArg (· + 1) hlength, hinvariant.congr_given fun entry => ?_⟩
    simp only [List.zip_cons_cons, List.mem_append, List.mem_cons]
    rw [or_assoc, or_left_comm]

/-- **One step of a grouping: a row is read and released, and a copy takes its place.** -/
theorem Invariant.grouped {others : List Tracked} {keys : List String} {position : Nat}
    {tuple : List Value} {copy : Row} (h : Invariant disk start now (item :: others))
    (hgrouped : item.row.grouped keys position disk now = (.ok (tuple, copy), after)) :
    tuple.length = keys.length ∧
      Invariant disk start after
        ({ source := item.source, row := copy, given := keys.zip tuple ++ item.given } ::
          others) := by
  obtain ⟨read, between, hread, hrest⟩ := Reading.bind_eq_ok.mp hgrouped
  obtain ⟨⟨⟩, released, hrelease, hrest⟩ := Reading.bind_eq_ok.mp hrest
  obtain ⟨made, last, hmade, hpure⟩ := Reading.bind_eq_ok.mp hrest
  obtain ⟨⟨rfl, rfl⟩, rfl⟩ : (read = tuple ∧ made = copy) ∧ last = after := by
    cases hpure
    exact ⟨⟨rfl, rfl⟩, rfl⟩
  obtain ⟨hlength, hinvariant⟩ := h.readTuple hread
  have hreleased : released = (item.row.release disk between).2 := by rw [hrelease]
  have hinvariant := hreleased ▸ hinvariant.release item.row
  obtain ⟨found, shelf, hcopy, hcopied⟩ := hinvariant.copy
  cases hmade.symm.trans hcopy
  exact ⟨hlength, hcopied⟩

/-! ## Going through a list -/

/-- Whatever is done with one row after the other, each step is beside all other rows. -/
theorem Invariant.mapM {α β : Type} {step : α → Reading β}
    {Moves : α × Tracked → β → Tracked → Prop} {states : List (α × Tracked)}
    {others : List Tracked} {results : List β}
    (hstep : ∀ state ∈ states, ∀ (others : List Tracked) (now after : Shelf) (result : β),
      Invariant disk start now (state.2 :: others) → step state.1 disk now = (.ok result, after) →
      ∃ moved, Moves state result moved ∧ Invariant disk start after (moved :: others))
    (h : Invariant disk start now (states.map Prod.snd ++ others))
    (hrun : (states.map Prod.fst).mapM step disk now = (.ok results, after)) :
    ∃ moves : List ((α × Tracked) × β × Tracked), moves.map Prod.fst = states ∧
      (moves.map fun move => move.2.1) = results ∧
      (∀ move ∈ moves, Moves move.1 move.2.1 move.2.2) ∧
      Invariant disk start after ((moves.map fun move => move.2.2) ++ others) := by
  induction states generalizing now others results with
  | nil =>
    cases hrun
    exact ⟨[], rfl, rfl, by simp, h⟩
  | cons state states ih =>
    rw [List.map_cons, List.mapM_cons] at hrun
    obtain ⟨result, between, hresult, hrest⟩ := Reading.bind_eq_ok.mp hrun
    obtain ⟨rest, last, hresults, hpure⟩ := Reading.bind_eq_ok.mp hrest
    cases hpure
    obtain ⟨moved, hmoved, hbetween⟩ :=
      hstep state List.mem_cons_self _ now between result h hresult
    -- The row that has been moved now counts as one of the others.
    have haside : Invariant disk start between (states.map Prod.snd ++ moved :: others) :=
      hbetween.perm List.perm_middle
    obtain ⟨moves, rfl, rfl, hmoves, hafter⟩ :=
      ih (fun other hother => hstep other (List.mem_cons_of_mem _ hother)) haside hresults
    refine ⟨(state, result, moved) :: moves, rfl, rfl, ?_, hafter.perm List.perm_middle.symm⟩
    intro move hmove
    obtain rfl | hmem := List.mem_cons.mp hmove
    · exact hmoved
    · exact hmoves move hmem

/-- A row has been read at some keys, and a copy has taken its place. -/
structure ReadAt (keys : List String) (item : Tracked) (tuple : List Value) (copy : Row)
    (moved : Tracked) : Prop where
  source : moved.source = item.source
  row : moved.row = copy
  given : moved.given = keys.zip tuple ++ item.given
  length : tuple.length = keys.length

end Tracked

/-- The tuples that the rows of a frame give when they are read in order for a grouping,
each with the copy of the row that goes on. -/
def Frame.readTuples (frame : Frame) (keys : List String) : Reading (List (List Value × Row)) :=
  frame.rows.zipIdx.mapM fun (row, position) => row.grouped keys position

/-- A grouping puts together what has been read. -/
theorem Frame.groupBy_eq_ok {disk : Disk} {now after : Shelf} {frame : Frame} {keys : List String}
    {grouping : Grouping} (hrun : frame.groupBy keys disk now = (.ok grouping, after)) :
    ∃ pairs, frame.readTuples keys disk now = (.ok pairs, after) ∧
      grouping = .split keys
        ((groupByTuple pairs).map fun group => (group.1, .whole ⟨group.2⟩)) := by
  obtain ⟨⟨⟩, checked, hcheck, hrest⟩ := Reading.bind_eq_ok.mp hrun
  obtain rfl : now = checked := congrArg Prod.snd hcheck
  obtain ⟨pairs, last, hpairs, hpure⟩ := Reading.bind_eq_ok.mp hrest
  cases hpure
  exact ⟨pairs, hpairs, rfl⟩

namespace Tracked

variable {disk : Disk} {start now after : Shelf} {items others : List Tracked}

/-- **Reading a frame for a grouping keeps the invariant.** -/
theorem Invariant.readTuples {frame : Frame} {keys : List String}
    {pairs : List (List Value × Row)} (hrows : items.map Tracked.row = frame.rows)
    (h : Invariant disk start now (items ++ others))
    (hrun : frame.readTuples keys disk now = (.ok pairs, after)) :
    ∃ reads : List (Tracked × (List Value × Row) × Tracked), reads.map Prod.fst = items ∧
      (reads.map fun read => read.2.1) = pairs ∧
      (∀ read ∈ reads, ReadAt keys read.1 read.2.1.1 read.2.1.2 read.2.2) ∧
      Invariant disk start after ((reads.map fun read => read.2.2) ++ others) := by
  let states := items.zipIdx.map fun entry => ((entry.1.row, entry.2), entry.1)
  have hinputs : states.map Prod.fst = frame.rows.zipIdx := by
    rw [← hrows, List.zipIdx_map, List.map_map]
    rfl
  have hitems : states.map Prod.snd = items := by
    rw [List.map_map]
    exact List.zipIdx_map_fst 0 items
  have hstep : ∀ state ∈ states, ∀ (others : List Tracked) (now after : Shelf)
      (pair : List Value × Row), Invariant disk start now (state.2 :: others) →
      state.1.1.grouped keys state.1.2 disk now = (.ok pair, after) →
      ∃ moved, ReadAt keys state.2 pair.1 pair.2 moved ∧
        Invariant disk start after (moved :: others) := by
    intro state hstate others now after pair hinvariant hgrouped
    obtain ⟨entry, -, rfl⟩ := List.mem_map.mp hstate
    obtain ⟨hlength, hmoved⟩ := hinvariant.grouped hgrouped
    exact ⟨{ source := entry.1.source, row := pair.2, given := keys.zip pair.1 ++ entry.1.given },
      ⟨rfl, rfl, rfl, hlength⟩, hmoved⟩
  rw [← hitems] at h
  unfold Frame.readTuples at hrun
  rw [← hinputs] at hrun
  obtain ⟨moves, hstates, hpairs, hmoves, hafter⟩ := h.mapM hstep hrun
  refine ⟨moves.map fun move => (move.1.2, move.2), ?_, ?_, ?_, ?_⟩
  · rw [List.map_map, ← hitems, ← hstates, List.map_map]
    rfl
  · rw [List.map_map]
    exact hpairs
  · intro read hread
    obtain ⟨move, hmove, rfl⟩ := List.mem_map.mp hread
    exact hmoves move hmove
  · rw [List.map_map]
    exact hafter

end Tracked

end Logbook
