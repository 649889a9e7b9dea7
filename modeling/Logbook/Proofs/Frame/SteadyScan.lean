import Logbook.Proofs.Frame.Carrying
import Logbook.Proofs.Frame.Steady

/-!
# Scanning steady fields

If loaders are faithful and the fields at some keys are steady, reading these cells of the rows of a
frame does not depend on what else has been read: it succeeds exactly if it does for every row on
its own at the start, and gives what the rows gave then (`Tracked.Invariant.meets_scan`).  Unlike a
split, a scan takes null for a field that a row does not have.
-/

namespace Logbook

namespace Row

variable {disk : Disk} {shelf after : Shelf} {row : Row} {key : String} {keys : List String}

/-- Reading the row succeeds at each of the keys, also where it has no such field. -/
def ReadsAll (disk : Disk) (shelf : Shelf) (keys : List String) (row : Row) : Prop :=
  ∀ key ∈ keys, (row.get? key disk shelf).1.isOk = true

theorem readsAll_cons : row.ReadsAll disk shelf (key :: keys) ↔
    (row.get? key disk shelf).1.isOk = true ∧ row.ReadsAll disk shelf keys :=
  List.forall_mem_cons

/-- Only a field that is not there gives no value, and nothing is read then. -/
theorem slot_of_get?_none (hget : row.get? key disk shelf = (.ok none, after)) :
    row.slots.get? key = none ∧ after = shelf := by
  cases hslot : row.slots.get? key with
  | none =>
    rw [get?_of_none hslot] at hget
    cases hget
    exact ⟨rfl, rfl⟩
  | some slot =>
    rw [get?_of_some hslot] at hget
    rcases hread : readSlot key slot disk shelf with ⟨_ | _, _⟩ <;>
      rw [hread] at hget <;> cases hget

end Row

namespace Tracked

open Reading

variable {disk : Disk} {start now after : Shelf} {item : Tracked} {items others : List Tracked}
  {read keys : List String} {key : String} {value : Value}

/-- The copy has the fields that the row has. -/
theorem Sound.slot_eq_none_iff (h : item.Sound disk start now) (key : String) :
    item.row.slots.get? key = none ↔ item.source.slots.get? key = none := by
  cases hcell : item.source.cellAt? key with
  | none => rw [h.plain key hcell]
  | some cell =>
    obtain ⟨held, hheld, -⟩ := h.cell key cell hcell
    rw [Row.cellAt?_eq_some_iff.mp hcell, Row.cellAt?_eq_some_iff.mp hheld]
    exact iff_of_false (Option.some_ne_none _) (Option.some_ne_none _)

/-- Where a row has no field, nothing has to be remembered. -/
theorem Recalls.cons_of_missing (h : item.Recalls disk start read)
    (hslot : item.source.slots.get? key = none) : item.Recalls disk start (key :: read) where
  asked other hother := List.mem_cons_of_mem _ (h.asked other hother)
  given other hother hother' := by
    rcases List.mem_cons.mp hother with rfl | hread
    · exact absurd hslot hother'
    · exact h.given other hread hother'
  value := h.value

/-- Reading a cell gives what the row gives at the start.  An item that remembers goes on
remembering. -/
theorem Invariant.meets_cell (h : Invariant disk start now (item :: others))
    (hfaithful : start.Faithful disk) (hsteady : item.source.Steady start key) :
    Meets disk now (item.row.cell key) ((item.source.get? key disk start).1.isOk = true)
      fun value after => [value] = item.source.tupleAt disk start [key] ∧
        ∃ moved : Tracked, moved.source = item.source ∧ moved.row = item.row ∧
          (∀ read, item.Recalls disk start read → moved.Recalls disk start (key :: read)) ∧
          Invariant disk start after (moved :: others) := by
  have hitem := h.sound item List.mem_cons_self
  have hsame := hitem.get?_eq_start h.later hfaithful hsteady
  constructor
  · intro hok
    rcases hget : item.row.get? key disk now with ⟨error | found, after⟩ <;> rw [hget] at hsame
    · rw [← hsame] at hok
      cases hok
    have hvalue : [found.getD .null] = item.source.tupleAt disk start [key] := by
      rw [Row.tupleAt, List.map_singleton, ← hsame]
      rfl
    refine ⟨found.getD .null, after, bind_of_ok hget, hvalue, ?_⟩
    cases found with
    | some value =>
      exact ⟨{ item with given := (key, value) :: item.given }, rfl, rfl,
        fun _ hrecalls => hrecalls.cons hsame.symm, h.get? hget⟩
    | none =>
      obtain ⟨hslot, rfl⟩ := Row.slot_of_get?_none hget
      have hmissing := (hitem.slot_eq_none_iff key).mp hslot
      exact ⟨item, rfl, rfl, fun _ hrecalls => hrecalls.cons_of_missing hmissing, h⟩
  · intro value after hrun
    obtain ⟨found, between, hget, -⟩ := bind_eq_ok.mp hrun
    rw [hget] at hsame
    rw [← hsame]
    rfl

theorem Invariant.meets_cells (h : Invariant disk start now (item :: others))
    (hfaithful : start.Faithful disk) (hsteady : ∀ key ∈ keys, item.source.Steady start key) :
    Meets disk now (keys.mapM item.row.cell) (item.source.ReadsAll disk start keys)
      fun values after => values = item.source.tupleAt disk start keys ∧
        ∃ moved : Tracked, moved.source = item.source ∧ moved.row = item.row ∧
          (∀ read, item.Recalls disk start read → moved.Recalls disk start (keys ++ read)) ∧
          Invariant disk start after (moved :: others) := by
  induction keys generalizing item now with
  | nil =>
    apply (meets_pure _).imp (iff_of_true trivial (by simp [Row.ReadsAll])) fun _ _ h => h
    exact ⟨rfl, item, rfl, rfl, fun _ hrecalls => hrecalls, h⟩
  | cons key keys ih =>
    obtain ⟨hkey, hkeys⟩ := List.forall_mem_cons.mp hsteady
    rw [List.mapM_cons]
    apply Meets.imp _ Row.readsAll_cons.symm fun _ _ h => h
    apply (h.meets_cell hfaithful hkey).bind
    rintro value between ⟨hvalue, first, hsource, hrow, hfirst, hbetween⟩
    rw [← hsource] at hkeys hvalue ⊢
    rw [← hrow]
    apply (ih hbetween hkeys).bind_total
    rintro _ last ⟨rfl, moved, hmovedSource, hmovedRow, hmoved, hlast⟩
    refine ⟨_, last, rfl, ?_, moved, hmovedSource, hmovedRow, fun read hrecalls => ?_, hlast⟩
    · exact congrArg (· ++ first.source.tupleAt disk start keys) hvalue
    · refine (hmoved _ (hfirst read hrecalls)).congr_read fun other => ?_
      simp only [List.mem_append, List.mem_cons]
      rw [or_assoc, or_left_comm]

/-- What can be read from each row on its own, beside all others, can be read from all of them in
turn. -/
theorem Invariant.meets_scanOf {α : Type} (read : Row → Reading α) (condition : Row → Prop)
    (result : Row → α) (done : Tracked → Prop)
    (hread : ∀ item ∈ items, ∀ (others : List Tracked) (now : Shelf),
      Invariant disk start now (item :: others) →
      Meets disk now (read item.row) (condition item.source) fun value after =>
        value = result item.source ∧ ∃ moved : Tracked, moved.source = item.source ∧
          moved.row = item.row ∧ done moved ∧ Invariant disk start after (moved :: others))
    (h : Invariant disk start now (items ++ others)) :
    Meets disk now ((frameOf items).scan read) (∀ row ∈ items.map Tracked.source, condition row)
      fun results after => results = (items.map Tracked.source).map result ∧
        ∃ moved : List Tracked, moved.map Tracked.source = items.map Tracked.source ∧
          moved.map Tracked.row = items.map Tracked.row ∧ (∀ item ∈ moved, done item) ∧
          Invariant disk start after (moved ++ others) := by
  unfold Frame.scan frameOf
  induction items generalizing now others with
  | nil =>
    apply (meets_pure _).imp (iff_of_true trivial (by simp)) fun _ _ h => h
    exact ⟨rfl, [], rfl, rfl, by simp, h⟩
  | cons item items ih =>
    obtain ⟨hitem, hrest⟩ := List.forall_mem_cons.mp hread
    rw [List.map_cons, List.map_cons, List.mapM_cons]
    apply Meets.imp _ List.forall_mem_cons.symm fun _ _ h => h
    have hreleased : Meets disk now (do
        let value ← read item.row
        item.row.release
        return value) (condition item.source) fun value after =>
          value = result item.source ∧ ∃ moved : Tracked, moved.source = item.source ∧
            moved.row = item.row ∧ done moved ∧
            Invariant disk start after (moved :: (items ++ others)) := by
      apply (hitem _ _ h).bind_total
      rintro value between ⟨hvalue, moved, hsource, hrow, hmoved, hbetween⟩
      exact ⟨value, _, rfl, hvalue, moved, hsource, hrow, hmoved, hbetween.release item.row⟩
    apply hreleased.bind
    rintro _ between ⟨rfl, moved, hsource, hrow, hmoved, hbetween⟩
    -- The row that has been read now counts as one of the others.
    have haside : Invariant disk start between (items ++ moved :: others) :=
      hbetween.perm List.perm_middle
    apply (ih hrest haside).bind_total
    rintro _ last ⟨rfl, rest, hsources, hrows, hmore, hlast⟩
    refine ⟨_, last, rfl, rfl, moved :: rest, ?_, ?_, List.forall_mem_cons.mpr ⟨hmoved, hmore⟩,
      hlast.perm List.perm_middle.symm⟩
    · rw [List.map_cons, hsource, hsources]
    · rw [List.map_cons, hrow, hrows]

/-- **Scanning steady fields succeeds exactly if every row can be read at the start**, and gives
what the rows gave then. -/
theorem Invariant.meets_scan (h : Invariant disk start now (items ++ others))
    (hfaithful : start.Faithful disk) (hitems : ∀ item ∈ items, item.Ready disk start read keys) :
    Meets disk now ((frameOf items).scan fun row => keys.mapM row.cell)
      (∀ row ∈ items.map Tracked.source, row.ReadsAll disk start keys)
      fun cells after => ∃ moved : List Tracked,
        moved.map Tracked.source = items.map Tracked.source ∧
        moved.map Tracked.row = items.map Tracked.row ∧
        (∀ item ∈ moved, item.Recalls disk start (keys ++ read)) ∧
        cells = moved.map (tuple disk start keys) ∧
        Invariant disk start after (moved ++ others) := by
  have hscan := Invariant.meets_scanOf (fun row => keys.mapM row.cell)
    (Row.ReadsAll disk start keys) (Row.tupleAt disk start keys)
    (Recalls disk start (keys ++ read)) (fun item hitem others now hbeside => by
      obtain ⟨hrecalls, hsteady⟩ := hitems item hitem
      apply (hbeside.meets_cells hfaithful hsteady).imp Iff.rfl
      rintro values after ⟨hvalues, moved, hsource, hrow, hmoved, hafter⟩
      exact ⟨hvalues, moved, hsource, hrow, hmoved read hrecalls, hafter⟩) h
  apply hscan.imp Iff.rfl
  rintro _ after ⟨rfl, moved, hsources, hrows, hmoved, hafter⟩
  refine ⟨moved, hsources, hrows, hmoved, ?_, hafter⟩
  rw [← hsources, List.map_map]
  rfl

end Tracked

/-- **Scanning a frame whose fields are steady.** -/
theorem Frame.Owned.meets_scan {disk : Disk} {before : Shelf} {frame : Frame} {keys : List String}
    (howned : frame.Owned before) (hfaithful : before.Faithful disk)
    (hsteady : ∀ row ∈ frame.rows, ∀ key ∈ keys, row.Steady before key) :
    Reading.Meets disk before (frame.scan fun row => keys.mapM row.cell)
      (∀ row ∈ frame.rows, row.ReadsAll disk before keys)
      fun cells _ => cells = frame.rows.map (Row.tupleAt disk before keys) := by
  obtain ⟨items, hframe, hsources, hready, hinvariant⟩ := howned.exists_items hsteady
  have hmeets := hinvariant.meets_scan hfaithful hready
  rw [hframe, hsources] at hmeets
  apply hmeets.imp Iff.rfl
  rintro _ after ⟨moved, hmoved, -, -, rfl, -⟩
  rw [← hmoved, List.map_map]
  rfl

end Logbook
