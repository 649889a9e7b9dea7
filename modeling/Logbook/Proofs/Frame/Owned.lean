import Logbook.Archive.Basic
import Logbook.Proofs.Row.Cells

/-!
# Frames own their cells

A computed field holds its value inside the row it belongs to.  On a shelf the row has
the number of a cell instead, so it has to be said that no other field has this number:
`Frame.Owned` does.  The ways in which rows are made keep it: rows of values and rows of
documents have no cells at all, so the frame that a query gives has none either, and a new
computed field gets a new cell.  That grouping and ungrouping keep it too needs more, and
is shown where they are.
-/

namespace Logbook

/-- The computed fields of a frame have cells of their own on the shelf. -/
structure Frame.Owned (shelf : Shelf) (frame : Frame) : Prop where
  housed (row : Row) (hrow : row ∈ frame.rows) : row.Housed shelf
  apart : frame.rows.Pairwise Row.Apart

namespace Row

theorem cellAt?_insert (row : Row) (key : String) (slot : Slot) (other : String) :
    (row.insert key slot).cellAt? other =
      if other = key then (match slot with | .computed cell => some cell | _ => none)
      else row.cellAt? other := by
  have hslots : (row.insert key slot).slots.get? other =
      if other = key then some slot else row.slots.get? other := SortedMap.get?_insert _ _ _ _
  unfold cellAt?
  rw [hslots]
  by_cases hother : other = key
  · rw [if_pos hother, if_pos hother]
    cases slot <;> rfl
  · rw [if_neg hother, if_neg hother]

theorem cellAt?_ofFields (id : Option RunId) (fields : List (String × Value)) (key : String) :
    (ofFields id fields).cellAt? key = none := by
  rw [Option.eq_none_iff_forall_ne_some]
  intro cell hcell
  have hslot := SortedMap.mem_of_get?_ofList (cellAt?_eq_some_iff.mp hcell)
  obtain ⟨field, -, heq⟩ := List.mem_map.mp hslot
  cases (Prod.mk.inj heq).2

theorem cellAt?_ofDocument (id : RunId) (document : Document) (run : Path) (codecs : Codecs)
    (shelf : Shelf) (key : String) :
    (ofDocument id document run codecs shelf).1.cellAt? key = none := by
  rw [Option.eq_none_iff_forall_ne_some]
  intro cell hcell
  have hslot := cellAt?_eq_some_iff.mp hcell
  dsimp only [ofDocument] at hslot
  rw [SortedMap.get?_mapValues] at hslot
  obtain ⟨value, -, hvalue⟩ := Option.map_eq_some_iff.mp hslot
  cases horigin : Origin.of key value <;> rw [horigin] at hvalue <;> cases hvalue

end Row

namespace Frame

variable {shelf : Shelf}

/-- Rows without computed fields own what they have. -/
theorem owned_of_plain {frame : Frame} (hplain : ∀ row ∈ frame.rows, ∀ key, row.cellAt? key = none)
    (shelf : Shelf) : frame.Owned shelf where
  housed row hrow := by
    constructor
    · intro key cell hcell
      rw [hplain row hrow key] at hcell
      cases hcell
    · intro key other cell hcell
      rw [hplain row hrow key] at hcell
      cases hcell
  apart := by
    refine List.Pairwise.imp_of_mem (fun {left right} hleft _ _ => ?_)
      (List.pairwise_of_forall fun _ _ => trivial : frame.rows.Pairwise fun _ _ => True)
    intro key other cell hcell
    rw [hplain left hleft key] at hcell
    cases hcell

theorem Owned.perm {rows permuted : List Row} (h : (⟨rows⟩ : Frame).Owned shelf)
    (hperm : permuted.Perm rows) : (⟨permuted⟩ : Frame).Owned shelf where
  housed row hrow := h.housed row (hperm.mem_iff.mp hrow)
  apart := (hperm.pairwise_iff fun {_ _} => Row.Apart.symm).mpr h.apart

theorem Owned.sublist {rows fewer : List Row} (h : (⟨rows⟩ : Frame).Owned shelf)
    (hsublist : fewer.Sublist rows) : (⟨fewer⟩ : Frame).Owned shelf where
  housed row hrow := h.housed row (hsublist.subset hrow)
  apart := h.apart.sublist hsublist

theorem Owned.insert_computed_head {row : Row} {rows : List Row}
    (h : (⟨row :: rows⟩ : Frame).Owned shelf) (key : String)
    (answer : Nat → String → Except Error Value) :
    (⟨row.insert key (.computed (shelf.addComputed answer).1) :: rows⟩ : Frame).Owned
      (shelf.addComputed answer).2 := by
  have hsize : (shelf.addComputed answer).2.cells.size = shelf.cells.size + 1 :=
    Array.size_push _
  have hcell : ∀ other cell,
      (row.insert key (.computed (shelf.addComputed answer).1)).cellAt? other = some cell →
      other = key ∧ cell = shelf.cells.size ∨ row.cellAt? other = some cell := by
    intro other cell hcell
    rw [Row.cellAt?_insert] at hcell
    by_cases hother : other = key
    · rw [if_pos hother] at hcell
      exact Or.inl ⟨hother, (Option.some_inj.mp hcell).symm⟩
    · rw [if_neg hother] at hcell
      exact Or.inr hcell
  have hbound : ∀ found ∈ row :: rows, ∀ other cell, found.cellAt? other = some cell →
      cell < shelf.cells.size := fun found hfound => (h.housed found hfound).bound
  obtain ⟨hapart, hrows⟩ := List.pairwise_cons.mp h.apart
  refine ⟨fun found hfound => ⟨fun other cell hfoundCell => ?_, ?_⟩,
    List.pairwise_cons.mpr ⟨fun found hfound other otherKey cell hnew hfoundCell => ?_, hrows⟩⟩
  · obtain rfl | hmem := List.mem_cons.mp hfound
    · obtain ⟨-, rfl⟩ | hold := hcell other cell hfoundCell
      · omega
      · have := hbound row List.mem_cons_self other cell hold
        omega
    · have := hbound found (List.mem_cons_of_mem _ hmem) other cell hfoundCell
      omega
  · obtain rfl | hmem := List.mem_cons.mp hfound
    · intro first second cell hfirst hsecond
      obtain ⟨rfl, rfl⟩ | hfirstOld := hcell first cell hfirst <;>
        obtain ⟨rfl, hlast⟩ | hsecondOld := hcell second _ hsecond
      · rfl
      · exact absurd (hbound row List.mem_cons_self second _ hsecondOld) (Nat.lt_irrefl _)
      · have := hbound row List.mem_cons_self first cell hfirstOld
        omega
      · exact (h.housed row List.mem_cons_self).own first second cell hfirstOld hsecondOld
    · exact (h.housed found (List.mem_cons_of_mem _ hmem)).own
  · have hlt := hbound found (List.mem_cons_of_mem _ hfound) otherKey cell hfoundCell
    obtain ⟨-, rfl⟩ | hold := hcell other cell hnew
    · exact absurd hlt (Nat.lt_irrefl _)
    · exact hapart found hfound other otherKey cell hold hfoundCell

/-- A new computed field of any row gets a new cell. -/
theorem Owned.insert_computed {before after : List Row} {row : Row}
    (h : (⟨before ++ row :: after⟩ : Frame).Owned shelf) (key : String)
    (answer : Nat → String → Except Error Value) :
    (⟨before ++ row.insert key (.computed (shelf.addComputed answer).1) :: after⟩ : Frame).Owned
      (shelf.addComputed answer).2 :=
  ((h.perm List.perm_middle.symm).insert_computed_head key answer).perm List.perm_middle

/-- The rows that a query gives have no computed fields yet. -/
theorem owned_of_query {archive : Archive} {query : String} {disk : Disk} {frame : Frame}
    {before after : Shelf} (hrun : archive.query query disk before = (.ok frame, after)) :
    frame.Owned after := by
  obtain ⟨runs, between, -, hrest⟩ := Reading.bind_eq_ok.mp hrun
  obtain ⟨rows, last, hrows, hpure⟩ := Reading.bind_eq_ok.mp hrest
  cases hpure
  refine owned_of_plain (fun row hrow key => ?_) after
  obtain ⟨run, -, shelf, next, hmade⟩ := Reading.exists_of_mem_mapM hrows hrow
  obtain rfl : (Row.ofDocument run.1 run.2 (archive.catalog.runDirectory run.1) archive.codecs
      shelf).1 = row := by
    cases hmade
    rfl
  exact Row.cellAt?_ofDocument _ _ _ _ _ key

end Frame

end Logbook
