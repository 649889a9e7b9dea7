import Logbook.Proofs.Frame.Carrying
import Logbook.Proofs.Frame.Ungroup
import Logbook.Proofs.Row.Fixed
import Logbook.Proofs.Value.Written

/-!
# Sorting a frame

Sorting reads a tuple of values from each row and puts copies of the rows in the order of the
tuples, up or down.  Rows with equal tuples stay in the order that they had, also on the way down
(`Frame.sort_spec`).

## Strategy

Values are in a total order only as far as their not-a-numbers have one sign, so the comparison
of tuples is transitive on the tuples that have been read, not on all there are.  Sorting a list
of items with a property is sorting a list of a subtype, where the facts about `List.mergeSort`
apply (`pairwise_mergeSort_of`, `filter_mergeSort_of`).  That a descending sort keeps the order of
equal tuples comes from comparing in the other direction: equal tuples are in order both ways.

The rows themselves go through the scan and are copied at the end.  What the scan does to them is
said by the invariant of tracked rows, and a copy is the row as it is then (`Row.copies_spec`).
-/

namespace Logbook

/-! ## Sorting items with a property -/

/-- Two orderings of the same items are one if items that are in order both ways stand alike. -/
theorem eq_of_pairwise_of_filter {α : Type} {le : α → α → Bool} {left right : List α}
    (hrefl : ∀ item ∈ left, le item item = true)
    (hleft : left.Pairwise fun first second => le first second)
    (hright : right.Pairwise fun first second => le first second) (hperm : left.Perm right)
    (halike : ∀ item ∈ left, left.filter (fun other => le item other && le other item) =
      right.filter fun other => le item other && le other item) : left = right := by
  induction left generalizing right with
  | nil => exact hperm.nil_eq
  | cons head left ih =>
    have hne : right ≠ [] := List.ne_nil_of_mem (hperm.subset List.mem_cons_self)
    obtain ⟨first, right, rfl⟩ := List.exists_cons_of_ne_nil hne
    obtain ⟨hheadRefl, hrefl⟩ := List.forall_mem_cons.mp hrefl
    obtain ⟨hheadLe, hleft⟩ := List.pairwise_cons.mp hleft
    obtain ⟨hfirstLe, hright⟩ := List.pairwise_cons.mp hright
    obtain ⟨hheadAlike, halike⟩ := List.forall_mem_cons.mp halike
    -- Each head may stand before the other, so they begin the same class.
    have hboth : (le head first && le first head) = true := by
      rw [Bool.and_eq_true]
      constructor
      · rcases List.mem_cons.mp (hperm.mem_iff.mpr List.mem_cons_self) with rfl | hmem
        · exact hheadRefl
        · exact hheadLe first hmem
      · rcases List.mem_cons.mp (hperm.mem_iff.mp List.mem_cons_self) with rfl | hmem
        · exact hheadRefl
        · exact hfirstLe head hmem
    obtain rfl : head = first := by
      rw [List.filter_cons, List.filter_cons, if_pos hboth, hheadRefl] at hheadAlike
      exact List.head_eq_of_cons_eq hheadAlike
    refine congrArg (List.cons head) (ih hrefl hleft (List.pairwise_cons.mp hright).2
      hperm.cons_inv ?_)
    intro item hitem
    have hclass := halike item hitem
    rw [List.filter_cons, List.filter_cons] at hclass
    split at hclass
    · exact List.tail_eq_of_cons_eq hclass
    · exact hclass

section Sorting

variable {α : Type} {P : α → Prop} {le : α → α → Bool} {items : List α}
  (hitems : ∀ item ∈ items, P item)
  (htrans : ∀ first second third, P first → P second → P third → le first second = true →
    le second third = true → le first third = true)
  (htotal : ∀ left right, P left → P right → (le left right || le right left) = true)

include hitems htrans htotal

theorem pairwise_mergeSort_of : (items.mergeSort le).Pairwise fun left right => le left right := by
  obtain ⟨attached, rfl⟩ : ∃ attached : List { item // P item }, attached.map Subtype.val = items :=
    ⟨items.attachWith P hitems, List.attachWith_map_subtype_val hitems⟩
  rw [← List.map_mergeSort (r := fun left right => le left.1 right.1) fun _ _ _ _ => rfl,
    List.pairwise_map]
  apply List.pairwise_mergeSort
  · intro first second third
    exact htrans first.1 second.1 third.1 first.2 second.2 third.2
  · intro left right
    exact htotal left.1 right.1 left.2 right.2

theorem sublist_mergeSort_of {part : List α}
    (hsorted : part.Pairwise fun left right => le left right) (hpart : part.Sublist items) :
    part.Sublist (items.mergeSort le) := by
  obtain ⟨attached, rfl⟩ : ∃ attached : List { item // P item }, attached.map Subtype.val = items :=
    ⟨items.attachWith P hitems, List.attachWith_map_subtype_val hitems⟩
  obtain ⟨within, hwithin, rfl⟩ := List.sublist_map_iff.mp hpart
  rw [← List.map_mergeSort (r := fun left right => le left.1 right.1) fun _ _ _ _ => rfl]
  apply List.Sublist.map
  apply List.sublist_mergeSort
  · intro first second third
    exact htrans first.1 second.1 third.1 first.2 second.2 third.2
  · intro left right
    exact htotal left.1 right.1 left.2 right.2
  · exact List.pairwise_map.mp hsorted
  · exact hwithin

/-- Items that are alike stay in their order. -/
theorem filter_mergeSort_of {alike : α → Bool} (halike : ∀ left ∈ items, ∀ right ∈ items,
      alike left = true → alike right = true → le left right = true) :
    (items.mergeSort le).filter alike = items.filter alike := by
  have hsorted : (items.filter alike).Pairwise fun left right => le left right := by
    apply List.Pairwise.imp_of_mem _ (List.pairwise_of_forall fun _ _ => trivial :
      (items.filter alike).Pairwise fun _ _ => True)
    intro left right hleft hright _
    obtain ⟨hleftMem, hleftAlike⟩ := List.mem_filter.mp hleft
    obtain ⟨hrightMem, hrightAlike⟩ := List.mem_filter.mp hright
    exact halike left hleftMem right hrightMem hleftAlike hrightAlike
  have hsublist := (sublist_mergeSort_of hitems htrans htotal hsorted
    List.filter_sublist).filter alike
  rw [List.filter_filter] at hsublist
  simp only [Bool.and_self] at hsublist
  have hlength := ((List.mergeSort_perm items le).filter alike).length_eq
  exact (hsublist.eq_of_length hlength.symm).symm

/-- **Sorting what is kept is keeping of what is sorted.** -/
theorem filter_mergeSort_comm (keep : α → Bool) :
    (items.mergeSort le).filter keep = (items.filter keep).mergeSort le := by
  have hkept : ∀ item ∈ items.filter keep, P item :=
    fun item hitem => hitems item (List.mem_filter.mp hitem).1
  have hperm := (List.mergeSort_perm items le).filter keep
  apply eq_of_pairwise_of_filter
  · intro item hitem
    simpa using htotal item item (hkept item (hperm.subset hitem)) (hkept item (hperm.subset hitem))
  · exact (pairwise_mergeSort_of hitems htrans htotal).sublist List.filter_sublist
  · exact pairwise_mergeSort_of hkept htrans htotal
  · exact hperm.trans (List.mergeSort_perm _ le).symm
  · intro item hitem
    have hitem := hkept item (hperm.subset hitem)
    have halike : ∀ left, P left → ∀ right, P right → (le item left && le left item) = true →
        (le item right && le right item) = true → le left right = true := by
      intro left hleft right hright hfirst hsecond
      rw [Bool.and_eq_true] at hfirst hsecond
      exact htrans left item right hleft hitem hright hfirst.2 hsecond.1
    rw [List.filter_comm, filter_mergeSort_of hitems htrans htotal fun left hleft right hright =>
        halike left (hitems left hleft) right (hitems right hright),
      filter_mergeSort_of hkept htrans htotal fun left hleft right hright =>
        halike left (hkept left hleft) right (hkept right hright), List.filter_comm]

end Sorting

/-! ## Tuples in order -/

namespace Value

/-- Tuples are compared value by value. -/
theorem orderItems_eq_compareLex (lefts rights : List Value) :
    orderItems lefts rights = List.compareLex order lefts rights := by
  induction lefts generalizing rights with
  | nil => cases rights <;> rfl
  | cons left lefts ih =>
    cases rights with
    | nil => rfl
    | cons right rights => rw [orderItems, List.compareLex_cons_cons, ih]

theorem orderItems_eq_compareCodes {negative : Bool} {lefts rights : List Value}
    (hleft : NaNSignOfItems negative lefts) (hright : NaNSignOfItems negative rights) :
    orderItems lefts rights = compareCodes (codeOfItems lefts) (codeOfItems rights) := by
  have hcodes := compareCodes_items lefts rights hleft hright [] []
  rw [List.append_nil, List.append_nil] at hcodes
  exact (hcodes.trans Ordering.then_eq).symm

theorem isLE_orderItems_trans {negative : Bool} {first second third : List Value}
    (hfirst : NaNSignOfItems negative first) (hsecond : NaNSignOfItems negative second)
    (hthird : NaNSignOfItems negative third) (hle : (orderItems first second).isLE = true)
    (hle' : (orderItems second third).isLE = true) : (orderItems first third).isLE = true := by
  rw [orderItems_eq_compareCodes hfirst hsecond] at hle
  rw [orderItems_eq_compareCodes hsecond hthird] at hle'
  rw [orderItems_eq_compareCodes hfirst hthird]
  exact Std.TransCmp.isLE_trans hle hle'

end Value

namespace Frame

open Value

/-- Whether a tuple may stand before another one, on the way up or on the way down. -/
def mayPrecede (ascending : Bool) (first second : List Value) : Bool :=
  if ascending then orderItems first second != .gt else orderItems second first != .gt

/-- A tuple precedes another one if it is not greater, or on the way down not less. -/
theorem mayPrecede_eq (ascending : Bool) (first second : List Value) :
    mayPrecede ascending first second =
      if ascending then (List.compareLex order first second).isLE
      else (List.compareLex order first second).isGE := by
  unfold mayPrecede
  rw [orderItems_swap first second, orderItems_eq_compareLex]
  cases ascending <;> cases List.compareLex order first second <;> rfl

theorem mayPrecede_of_sameItems {ascending : Bool} {first second : List Value}
    (h : sameItems first second = true) : mayPrecede ascending first second = true := by
  have heq := (orderItems_eq_iff_same first second).mpr h
  unfold mayPrecede
  rw [orderItems_swap first second, heq]
  cases ascending <;> rfl

theorem mayPrecede_trans {ascending negative : Bool} {first second third : List Value}
    (hfirst : NaNSignOfItems negative first) (hsecond : NaNSignOfItems negative second)
    (hthird : NaNSignOfItems negative third) (hle : mayPrecede ascending first second = true)
    (hle' : mayPrecede ascending second third = true) :
    mayPrecede ascending first third = true := by
  have hisLE : ∀ order : Ordering, (order != .gt) = order.isLE := by decide
  unfold mayPrecede at hle hle' ⊢
  simp only [hisLE] at hle hle' ⊢
  cases ascending with
  | true => exact isLE_orderItems_trans hfirst hsecond hthird hle hle'
  | false => exact isLE_orderItems_trans hthird hsecond hfirst hle' hle

theorem mayPrecede_total (ascending : Bool) (first second : List Value) :
    (mayPrecede ascending first second || mayPrecede ascending second first) = true := by
  unfold mayPrecede
  rw [orderItems_swap first second]
  cases ascending <;> cases orderItems first second <;> rfl

/-- Entries in the order of their tuples, up or down, where entries with equal tuples stay in the
order that they had. -/
structure SortsTo {α : Type} (ascending : Bool) (entries sorted : List (List Value × α)) :
    Prop where
  perm : sorted.Perm entries
  ordered : sorted.Pairwise fun first second =>
    (if ascending then (List.compareLex order first.1 second.1).isLE
      else (List.compareLex order first.1 second.1).isGE) = true
  stable (tuple : List Value) :
    (sorted.filter fun entry => sameItems entry.1 tuple) =
      entries.filter fun entry => sameItems entry.1 tuple

theorem sortsTo_mergeSort {α : Type} {negative : Bool} (ascending : Bool)
    {entries : List (List Value × α)}
    (hsign : ∀ entry ∈ entries, NaNSignOfItems negative entry.1) :
    SortsTo ascending entries
      (entries.mergeSort fun left right => mayPrecede ascending left.1 right.1) where
  perm := List.mergeSort_perm _ _
  ordered := by
    simp only [← mayPrecede_eq]
    apply pairwise_mergeSort_of hsign
    · intro first second third
      exact mayPrecede_trans
    · intro left right _ _
      exact mayPrecede_total ascending left.1 right.1
  stable tuple := by
    apply filter_mergeSort_of hsign
    · intro first second third
      exact mayPrecede_trans
    · intro left right _ _
      exact mayPrecede_total ascending left.1 right.1
    · intro left _ right _ hleft hright
      exact mayPrecede_of_sameItems (sameItems_trans hleft (sameItems_symm hright))

end Frame

/-! ## Copies -/

namespace Row

variable {disk : Disk} {shelf after : Shelf} {row copy : Row}

/-- A row and a copy of it on one shelf: they have the same in every field. -/
structure CopyOf (shelf : Shelf) (row copy : Row) : Prop where
  id : copy.id = row.id
  metrics : copy.metrics = row.metrics
  artifacts : copy.artifacts = row.artifacts
  field (key : String) :
    Option.Rel (Slot.CopiedTo shelf shelf) (row.slots.get? key) (copy.slots.get? key)

/-- What is in cells stays there while others are made. -/
structure CellsStay (shelf after : Shelf) : Prop where
  cell (cell : Nat) (hcell : cell < shelf.cells.size) : after.cells[cell]? = shelf.cells[cell]?
  size : shelf.cells.size ≤ after.cells.size

theorem CopiedTo.copyOf {last : Shelf} (h : CopiedTo shelf after row copy)
    (hhoused : row.Housed shelf) (hstay : CellsStay after last) : row.CopyOf last copy where
  id := h.id
  metrics := h.metrics
  artifacts := h.artifacts
  field key := by
    cases hcell : row.cellAt? key with
    | none =>
      rw [h.plain key hcell]
      cases hslot : row.slots.get? key with
      | none => exact .none
      | some slot =>
        cases slot with
        | value value => exact .some (.value value)
        | metric loader => exact .some (.metric loader)
        | artifacts loader => exact .some (.artifacts loader)
        | computed cell => simp [cellAt?, hslot] at hcell
    | some cell =>
      obtain ⟨new, hnew, -, hlt, hcontents⟩ := h.cell key cell hcell
      rw [cellAt?_eq_some_iff.mp hcell, cellAt?_eq_some_iff.mp hnew]
      have hbound := hhoused.bound key cell hcell
      refine .some (.computed ?_)
      calc last.cells[new]? = after.cells[new]? := hstay.cell new hlt
        _ = shelf.cells[cell]? := hcontents
        _ = after.cells[cell]? := (h.kept cell hbound).symm
        _ = last.cells[cell]? := (hstay.cell cell (Nat.lt_of_lt_of_le hbound h.size_le)).symm

/-- **Copying rows succeeds**, and each copy is the row that it was made of. -/
theorem copies_spec {rows : List Row} (hhoused : ∀ row ∈ rows, row.Housed shelf) (disk : Disk) :
    ∃ copies after, Row.copies rows disk shelf = (.ok copies, after) ∧
      List.Forall₂ (CopyOf after) rows copies ∧ CellsStay shelf after := by
  induction rows generalizing shelf with
  | nil => exact ⟨[], shelf, rfl, .nil, ⟨fun _ _ => rfl, Nat.le_refl _⟩⟩
  | cons row rows ih =>
    obtain ⟨hrow, hrows⟩ := List.forall_mem_cons.mp hhoused
    obtain ⟨copy, between, hcopy, hcopied⟩ := copiedTo_copy hrow disk
    have hmoved : ∀ row ∈ rows, row.Housed between :=
      fun other hother => (hrows other hother).mono hcopied.size_le
    obtain ⟨copies, after, hcopies, hall, hstay⟩ := ih hmoved
    refine ⟨copy :: copies, after, ?_, .cons (hcopied.copyOf hrow hstay) hall, ?_, ?_⟩
    · show (row :: rows).mapM Row.copy disk shelf = _
      rw [List.mapM_cons, Reading.bind_of_ok hcopy]
      exact Reading.bind_of_ok hcopies
    · intro cell hcell
      rw [hstay.cell cell (Nat.lt_of_lt_of_le hcell hcopied.size_le)]
      exact hcopied.kept cell hcell
    · exact Nat.le_trans hcopied.size_le hstay.size

/-- What a row shows at a key when it is read: the value that it gives then, which a computed
field keeps, and null if it has no such field. -/
inductive Showed (disk : Disk) (before after : Shelf) (row : Row) (key : String) (value : Value) :
    Prop
  | field (hgave : row.Gave disk before after key value)
      (hkept : ∀ cell, row.cellAt? key = some cell → after.settled? cell = some value) :
      Showed disk before after row key value
  | missing (hslot : row.slots.get? key = none) (hnull : value = .null) :
      Showed disk before after row key value

theorem Showed.mono {before last : Shelf} {key : String} {value : Value}
    (h : row.Showed disk before after key value) (hlast : after.Later disk last) :
    row.Showed disk before last key value := by
  cases h with
  | field hgave hkept =>
    exact .field (hgave.mono hlast) fun cell hcell => hlast.settled? (hkept cell hcell)
  | missing hslot hnull => exact .missing hslot hnull

/-- A row after it was sorted: it is a copy of the row as that is now, and where the row was not
read, as it was before. -/
structure SortedTo (before after : Shelf) (keys : List String) (row copy : Row) : Prop where
  copyOf : row.CopyOf after copy
  unread (key : String) (hkey : key ∉ keys) :
    Option.Rel (Slot.CopiedTo before after) (row.slots.get? key) (copy.slots.get? key)

theorem CopyOf.sortedTo {before : Shelf} {keys : List String} (h : row.CopyOf after copy)
    (hcells : ∀ key ∉ keys, ∀ cell, row.cellAt? key = some cell →
      after.cells[cell]? = before.cells[cell]?) : row.SortedTo before after keys copy where
  copyOf := h
  unread key hkey := by
    have hfield := h.field key
    have hsame := hcells key hkey
    revert hfield
    unfold cellAt? at hsame
    generalize row.slots.get? key = slot at hsame
    generalize copy.slots.get? key = made
    intro hfield
    cases hfield with
    | none => exact .none
    | some hslot =>
      cases hslot with
      | value value => exact .some (.value value)
      | metric loader => exact .some (.metric loader)
      | artifacts loader => exact .some (.artifacts loader)
      | computed hcontents => exact .some (.computed (hcontents.trans (hsame _ rfl)))

end Row

namespace Frame

open Value

variable {disk : Disk} {before after : Shelf} {frame result : Frame} {keys : List String}
  {ascending : Bool}

/-- The tuples that are read are what the rows show. -/
theorem showed_scan {tuples : List (List Value)} (howned : frame.Owned before)
    (hscan : frame.scan (fun row => keys.mapM row.cell) disk before = (.ok tuples, after)) :
    before.Later disk after ∧
      List.Forall₂ (fun row tuple => List.Forall₂ (row.Showed disk before after) keys tuple)
        frame.rows tuples := by
  let states := frame.rows.map fun row => (row, (⟨row, row, []⟩ : Tracked))
  have hrows : (states.map fun state => state.2.row) = frame.rows := by
    rw [List.map_map]
    exact List.map_id frame.rows
  have hinvariant : Tracked.Invariant disk before before (states.map Prod.snd ++ []) := by
    rw [List.append_nil, List.map_map]
    exact howned.invariant disk
  obtain ⟨moves, hstates, rfl, hmoves, hafter⟩ := hinvariant.scan hrows hscan
  refine ⟨hafter.later, ?_⟩
  rw [← hrows, ← hstates, List.map_map, List.forall₂_map_left_iff, List.forall₂_map_right_iff,
    List.forall₂_same]
  intro move hmove
  have hstate : move.1 ∈ states := hstates ▸ List.mem_map_of_mem hmove
  obtain ⟨row, -, hrow⟩ := List.mem_map.mp hstate
  have hscanned := hmoves move hmove
  have hsound := hafter.sound move.2.2 (List.mem_append_left _ (List.mem_map_of_mem hmove))
  have hitem : move.1.2 = ⟨row, row, []⟩ := (congrArg Prod.snd hrow).symm
  have hlater : move.2.2.row = row := hscanned.row.trans (congrArg Tracked.row hitem)
  have hsource : move.2.2.source = row := hscanned.goes.source.trans (congrArg Tracked.source hitem)
  show List.Forall₂ (move.1.2.row.Showed disk before after) keys move.2.1
  rw [hitem]
  refine hscanned.shows.imp ?_
  intro key value hshows
  rcases hshows with hgiven | ⟨hslot, hnull⟩
  · refine .field (hsource ▸ hsound.gave key value hgiven) ?_
    intro cell hcell
    exact hsound.settled key cell value (hlater.symm ▸ hcell) hgiven
  · exact .missing (hlater ▸ hslot) hnull

/-- Reading rows touches no cells but those of the fields that are read. -/
theorem getElem?_cells_scan {tuples : List (List Value)} {cell : Nat}
    (hcell : ∀ row ∈ frame.rows, ∀ key ∈ keys, row.cellAt? key ≠ some cell)
    (hscan : frame.scan (fun row => keys.mapM row.cell) disk before = (.ok tuples, after)) :
    after.cells[cell]? = before.cells[cell]? := by
  have hkeys : ∀ row ∈ frame.rows, ∀ (part : List String) (values : List Value)
      (now later : Shelf), part ⊆ keys → part.mapM row.cell disk now = (.ok values, later) →
      later.cells[cell]? = now.cells[cell]? := by
    intro row hrow part
    induction part with
    | nil =>
      intro values now later _ hread
      cases hread
      rfl
    | cons key part ih =>
      intro values now later hpart hread
      obtain ⟨hkey, hpart⟩ := List.cons_subset.mp hpart
      rw [List.mapM_cons] at hread
      obtain ⟨value, between, hvalue, hrest⟩ := Reading.bind_eq_ok.mp hread
      obtain ⟨more, last, hmore, hpure⟩ := Reading.bind_eq_ok.mp hrest
      cases hpure
      obtain ⟨found, reached, hget, hgiven⟩ := Reading.bind_eq_ok.mp hvalue
      cases hgiven
      have hshelf : (row.get? key disk now).2 = between := by rw [hget]
      rw [ih more between later hpart hmore, ← hshelf]
      exact Row.getElem?_cells_get? (hcell row hrow key hkey)
  unfold scan at hscan
  generalize frame.rows = rows at hscan hkeys
  induction rows generalizing before tuples with
  | nil =>
    cases hscan
    rfl
  | cons row rows ih =>
    rw [List.mapM_cons] at hscan
    obtain ⟨tuple, between, hrow, hrest⟩ := Reading.bind_eq_ok.mp hscan
    obtain ⟨more, last, hmore, hpure⟩ := Reading.bind_eq_ok.mp hrest
    cases hpure
    obtain ⟨values, read, hread, hrest⟩ := Reading.bind_eq_ok.mp hrow
    obtain ⟨⟨⟩, released, hrelease, hgiven⟩ := Reading.bind_eq_ok.mp hrest
    cases hgiven
    cases hrelease
    rw [ih hmore fun other hother => hkeys other (List.mem_cons_of_mem _ hother)]
    exact hkeys row List.mem_cons_self keys _ before read (fun _ hkey => hkey) hread

/-! ## What sorting does -/

/-- A computed field that is not read has a cell that no field has that is read. -/
theorem Owned.cellAt?_ne (h : frame.Owned before) {row : Row} (hrow : row ∈ frame.rows)
    {key : String} (hkey : key ∉ keys) {cell : Nat} (hcell : row.cellAt? key = some cell) :
    ∀ other ∈ frame.rows, ∀ read ∈ keys, other.cellAt? read ≠ some cell := by
  intro other hother read hread hsame
  by_cases heq : other = row
  · subst heq
    obtain rfl := (h.housed other hrow).own key read cell hcell hsame
    exact hkey hread
  · have : Std.Symm Row.Apart := ⟨fun _ _ hapart => hapart.symm⟩
    exact h.apart.forall hother hrow heq read key cell hsame hcell

theorem Owned.housed_of_later (h : frame.Owned before) (hlater : before.Later disk after) :
    ∀ row ∈ frame.rows, row.Housed after :=
  fun row hrow => (h.housed row hrow).mono hlater.size_le

/-- Copies that are made of some rows after all rows have been read. -/
theorem Owned.sortedTo_of_copies {between : Shelf} {tuples : List (List Value)}
    {rows copies : List Row} (howned : frame.Owned before)
    (hscan : frame.scan (fun row => keys.mapM row.cell) disk before = (.ok tuples, between))
    (hlater : before.Later disk between) (hrows : ∀ row ∈ rows, row ∈ frame.rows)
    (hcopies : Row.copies rows disk between = (.ok copies, after)) :
    List.Forall₂ (Row.SortedTo before after keys) rows copies := by
  have hhoused := howned.housed_of_later hlater
  obtain ⟨made, last, hmade, hall, hstay⟩ :=
    Row.copies_spec (fun row hrow => hhoused row (hrows row hrow)) disk
  obtain ⟨rfl, rfl⟩ : copies = made ∧ after = last := by
    cases hcopies.symm.trans hmade
    exact ⟨rfl, rfl⟩
  apply ((List.forall₂_and_left _ _).mpr ⟨hrows, hall⟩).imp
  rintro row copy ⟨hrow, hcopy⟩
  apply hcopy.sortedTo
  intro key hkey cell hcell
  have hbound := (hhoused row hrow).bound key cell hcell
  calc after.cells[cell]? = between.cells[cell]? := hstay.cell cell hbound
    _ = before.cells[cell]? := getElem?_cells_scan (howned.cellAt?_ne hrow hkey hcell) hscan

theorem sortedTo_copies {between : Shelf} {tuples : List (List Value)} {copies : List Row}
    (howned : frame.Owned before)
    (hscan : frame.scan (fun row => keys.mapM row.cell) disk before = (.ok tuples, between))
    (hlater : before.Later disk between) {sorted : List (List Value × Row)}
    (hperm : sorted.Perm (tuples.zip frame.rows))
    (hcopies : Row.copies (sorted.map Prod.snd) disk between = (.ok copies, after)) :
    List.Forall₂ (fun entry copy => entry.2.SortedTo before after keys copy) sorted copies := by
  have hrows : ∀ row ∈ sorted.map Prod.snd, row ∈ frame.rows := by
    intro row hrow
    obtain ⟨entry, hentry, rfl⟩ := List.mem_map.mp hrow
    exact (List.of_mem_zip (hperm.mem_iff.mp hentry)).2
  exact List.forall₂_map_left_iff.mp (howned.sortedTo_of_copies hscan hlater hrows hcopies)

/-- Once the rows have been read, nothing can fail any more. -/
theorem exists_sort_of_scan {between : Shelf} {tuples : List (List Value)}
    (howned : frame.Owned before) (hcheck : frame.checkKeys keys = .ok ()) (ascending : Bool)
    (hscan : frame.scan (fun row => keys.mapM row.cell) disk before = (.ok tuples, between)) :
    ∃ result after, frame.sort keys ascending disk before = (.ok result, after) := by
  let sorted := (tuples.zip frame.rows).mergeSort fun left right =>
    mayPrecede ascending left.1 right.1
  have hhoused : ∀ row ∈ sorted.map Prod.snd, row.Housed between := by
    intro row hrow
    obtain ⟨entry, hentry, rfl⟩ := List.mem_map.mp hrow
    have hmem := (List.mergeSort_perm _ _).mem_iff.mp hentry
    exact howned.housed_of_later (showed_scan howned hscan).1 entry.2 (List.of_mem_zip hmem).2
  obtain ⟨copies, after, hcopies, -⟩ := Row.copies_spec hhoused disk
  refine ⟨⟨copies⟩, after, ?_⟩
  unfold sort
  rw [hcheck]
  show (frame.scan (fun row => keys.mapM row.cell) >>= fun tuples => _ : Reading Frame)
    disk before = (.ok ⟨copies⟩, after)
  rw [Reading.bind_of_ok hscan]
  exact Reading.bind_of_ok hcopies

/-- **Sorting orders the rows by their tuples**, up or down, and keeps rows with equal tuples in
their order, provided that no tuple has a negative not-a-number.  None has that comes from YAML
or JSON. -/
theorem sort_spec (howned : frame.Owned before)
    (hrun : frame.sort keys ascending disk before = (.ok result, after)) :
    (∃ tuples between,
      frame.scan (fun row => keys.mapM row.cell) disk before = (.ok tuples, between) ∧
      List.Forall₂ (fun row tuple => List.Forall₂ (row.Showed disk before after) keys tuple)
        frame.rows tuples ∧
      ((∀ tuple ∈ tuples, ∀ value ∈ tuple, value.NaNSign false) →
        ∃ sorted, SortsTo ascending (tuples.zip frame.rows) sorted ∧
          List.Forall₂ (fun entry copy => entry.2.SortedTo before after keys copy) sorted
            result.rows)) ∧
      ∀ text value, WrittenIn text value → value.NaNSign false := by
  refine ⟨?_, fun _ _ => nanSign_of_writtenIn⟩
  obtain ⟨⟨⟩, checked, hcheck, hrest⟩ := Reading.bind_eq_ok.mp hrun
  obtain rfl : before = checked := congrArg Prod.snd hcheck
  obtain ⟨tuples, between, hscan, hrest⟩ := Reading.bind_eq_ok.mp hrest
  obtain ⟨copies, last, hcopies, hpure⟩ := Reading.bind_eq_ok.mp hrest
  cases hpure
  obtain ⟨hbetween, hshowed⟩ := showed_scan howned hscan
  have hlater : between.Later disk after := Shelf.later_copies hcopies
  refine ⟨tuples, between, hscan, ?_, ?_⟩
  · refine hshowed.imp ?_
    intro row tuple htuple
    exact htuple.imp fun _ _ h => h.mono hlater
  · intro hsign
    have hentries : ∀ entry ∈ tuples.zip frame.rows, NaNSignOfItems false entry.1 := by
      intro entry hentry
      exact nanSignOfItems_iff.mpr (hsign entry.1 (List.of_mem_zip hentry).1)
    refine ⟨_, sortsTo_mergeSort ascending hentries, ?_⟩
    exact sortedTo_copies howned hscan hbetween (List.mergeSort_perm _ _) hcopies

/-- Three rows are sorted downwards by a key at which an integer and a double are equal and a row
has nothing. -/
theorem sort_of_three_rows :
    let frame : Frame := ⟨[Row.ofFields (some 1) [("config.lr", .int 1)], Row.ofFields (some 2) [],
      Row.ofFields (some 3) [("config.lr", .float (.ofInt 1))]]⟩
    let disk := Disk.empty ⟨"/runs"⟩
    ∃ result after sorted, frame.sort ["config.lr"] false disk {} = (.ok result, after) ∧
      SortsTo false ([[.int 1], [.null], [.float (.ofInt 1)]].zip frame.rows) sorted ∧
      List.Forall₂ (fun entry copy => entry.2.SortedTo {} after ["config.lr"] copy) sorted
        result.rows := by
  intro frame disk
  have howned : frame.Owned {} := by
    apply owned_of_plain
    intro row hrow key
    simp only [frame, List.mem_cons, List.not_mem_nil, or_false] at hrow
    rcases hrow with rfl | rfl | rfl <;> exact Row.cellAt?_ofFields _ _ key
  have hscan : frame.scan (fun row => ["config.lr"].mapM row.cell) disk {} =
      (.ok [[.int 1], [.null], [.float (.ofInt 1)]], {}) := rfl
  obtain ⟨result, after, hrun⟩ := exists_sort_of_scan howned (by rfl) false hscan
  obtain ⟨⟨tuples, between, htuples, -, hsorts⟩, -⟩ := sort_spec howned hrun
  obtain rfl : [[.int 1], [.null], [.float (.ofInt 1)]] = tuples :=
    Except.ok.inj (congrArg Prod.fst (hscan.symm.trans htuples))
  obtain ⟨sorted, hsorted, hrows⟩ := hsorts (by simp [NaNSign])
  exact ⟨result, after, sorted, hrun, hsorted, hrows⟩

end Frame

end Logbook
