import Logbook.Proofs.Frame.Filter
import Logbook.Proofs.Frame.Partition
import Logbook.Proofs.Frame.Tracking
import Mathlib.Data.List.Perm.Basic

/-!
# Rows that an operation carries over

Sorting and filtering read cells of the rows of a frame and go on with copies of some of them.
As in a grouping, each copy is followed by a `Tracked` item, which now also has what was read
for the operation.  So every row of the result stands for a row of the frame
(`Frame.Carries`), and what a filter calls its function with are the values that the rows of
the frame give (`Tracked.Invariant.filter`).

## Strategy

Reading a cell is reading a field, where a missing field gives null (`Invariant.cell`).  This
goes through the keys of a row (`Invariant.cells`) and the rows of a frame (`Invariant.scan`)
as grouping does.  What is done to the list of rows after that, sorting it or dropping some,
is done to the items, and copies take the place of what is left (`Invariant.copies`).
-/

namespace Logbook

/-- Between two shelves the row gives the value at the key, which is null if it has no such
field. -/
def Row.Yields (disk : Disk) (before after : Shelf) (row : Row) (key : String) (value : Value) :
    Prop :=
  row.Gave disk before after key value ∨ row.slots.get? key = none ∧ value = .null

theorem Row.Yields.mono {disk : Disk} {before after last : Shelf} {row : Row} {key : String}
    {value : Value} (h : row.Yields disk before after key value) (hlast : after.Later disk last) :
    row.Yields disk before last key value :=
  h.imp_left fun hgave => hgave.mono hlast

/-- A perm of images is the image of a perm. -/
theorem exists_perm_of_perm_map {α β : Type} {f : α → β} {items : List α} {images : List β}
    (h : images.Perm (items.map f)) :
    ∃ permuted : List α, images = permuted.map f ∧ permuted.Perm items :=
  (congrFun (congrFun (List.eq_map_comp_perm f) images) items).mpr h

namespace Tracked

variable {disk : Disk} {start now after : Shelf} {item other : Tracked}
  {items others : List Tracked} {key : String} {value : Value}

/-- The second item stands for the same row as the first, and has all that was read from it. -/
structure Goes (item later : Tracked) : Prop where
  source : later.source = item.source
  given : item.given ⊆ later.given

theorem Goes.refl (item : Tracked) : item.Goes item := ⟨rfl, fun _ hmem => hmem⟩

theorem Goes.trans {last : Tracked} (h : item.Goes other) (hlast : other.Goes last) :
    item.Goes last :=
  ⟨hlast.source.trans h.source, fun _ hmem => hlast.given (h.given hmem)⟩

/-- What was read at the key is known, or there is nothing to read. -/
def Shows (item : Tracked) (key : String) (value : Value) : Prop :=
  (key, value) ∈ item.given ∨ item.row.slots.get? key = none ∧ value = .null

theorem Sound.yields (h : item.Sound disk start now) (hshows : item.Shows key value) :
    item.source.Yields disk start now key value := by
  obtain hgiven | ⟨hslot, hnull⟩ := hshows
  · exact .inl (h.gave key value hgiven)
  · refine .inr ⟨?_, hnull⟩
    cases hcell : item.source.cellAt? key with
    | none => rw [← h.plain key hcell, hslot]
    | some cell =>
      obtain ⟨held, hheld, -⟩ := h.cell key cell hcell
      rw [Row.cellAt?_eq_some_iff, hslot] at hheld
      cases hheld

/-! ## Fewer rows -/

theorem Invariant.sublist {fewer : List Tracked} (h : Invariant disk start now items)
    (hfewer : fewer.Sublist items) : Invariant disk start now fewer where
  later := h.later
  size_le := h.size_le
  sound item hitem := h.sound item (hfewer.subset hitem)
  apart := h.apart.sublist hfewer

/-! ## Reading cells -/

theorem Invariant.cell (h : Invariant disk start now (item :: others))
    (hread : item.row.cell key disk now = (.ok value, after)) :
    ∃ later, item.Goes later ∧ later.row = item.row ∧ later.Shows key value ∧
      Invariant disk start after (later :: others) := by
  obtain ⟨found, between, hget, hpure⟩ := Reading.bind_eq_ok.mp hread
  cases found with
  | some found =>
    cases hpure
    exact ⟨{ item with given := (key, found) :: item.given },
      ⟨rfl, fun _ hmem => List.mem_cons_of_mem _ hmem⟩, rfl, .inl List.mem_cons_self, h.get? hget⟩
  | none =>
    cases hpure
    cases hslot : item.row.slots.get? key with
    | none =>
      rw [Row.get?_of_none hslot] at hget
      cases hget
      exact ⟨item, .refl item, rfl, .inr ⟨hslot, rfl⟩, h⟩
    | some slot =>
      rw [Row.get?_of_some hslot] at hget
      rcases hvalue : Row.readSlot key slot disk now with ⟨error | given, last⟩ <;>
        rw [hvalue] at hget <;> cases hget

/-- What was shown stays shown when more is read. -/
theorem Goes.shows {later : Tracked} (h : item.Goes later) (hrow : later.row = item.row)
    (hshows : item.Shows key value) : later.Shows key value := by
  obtain hgiven | habsent := hshows
  · exact .inl (h.given hgiven)
  · exact .inr (hrow ▸ habsent)

theorem Invariant.cells {keys : List String} {values : List Value}
    (h : Invariant disk start now (item :: others))
    (hread : keys.mapM item.row.cell disk now = (.ok values, after)) :
    ∃ later, item.Goes later ∧ later.row = item.row ∧ List.Forall₂ later.Shows keys values ∧
      Invariant disk start after (later :: others) := by
  induction keys generalizing item now values with
  | nil =>
    cases hread
    exact ⟨item, .refl item, rfl, .nil, h⟩
  | cons key keys ih =>
    rw [List.mapM_cons] at hread
    obtain ⟨value, between, hvalue, hrest⟩ := Reading.bind_eq_ok.mp hread
    obtain ⟨rest, last, hmore, hpure⟩ := Reading.bind_eq_ok.mp hrest
    cases hpure
    obtain ⟨first, hfirst, hrow, hshows, hbetween⟩ := h.cell hvalue
    rw [← hrow] at hmore
    obtain ⟨later, hlater, hlaterRow, hlaterShows, hafter⟩ := ih hbetween hmore
    exact ⟨later, hfirst.trans hlater, hlaterRow.trans hrow,
      .cons (hlater.shows hlaterRow hshows) hlaterShows, hafter⟩

/-- A row has been read at some keys and released. -/
structure Scanned (keys : List String) (item : Tracked) (values : List Value) (later : Tracked) :
    Prop where
  goes : item.Goes later
  row : later.row = item.row
  shows : List.Forall₂ later.Shows keys values

/-- Whatever is done with the rows one after the other, each item keeps its label. -/
theorem Invariant.mapRows {ι β : Type} {step : Row → Reading β}
    (Moves : Tracked → β → Tracked → Prop) {states : List (ι × Tracked)} {results : List β}
    (hstep : ∀ (item : Tracked) (others : List Tracked) (now after : Shelf) (result : β),
      Invariant disk start now (item :: others) → step item.row disk now = (.ok result, after) →
      ∃ moved, Moves item result moved ∧ Invariant disk start after (moved :: others))
    (h : Invariant disk start now (states.map Prod.snd ++ others))
    (hrun : (states.map fun state => state.2.row).mapM step disk now = (.ok results, after)) :
    ∃ moves : List ((ι × Tracked) × β × Tracked), moves.map Prod.fst = states ∧
      (moves.map fun move => move.2.1) = results ∧
      (∀ move ∈ moves, Moves move.1.2 move.2.1 move.2.2) ∧
      Invariant disk start after ((moves.map fun move => move.2.2) ++ others) := by
  let inputs := states.map fun state => ((state.1, state.2.row), state.2)
  have hitems : inputs.map Prod.snd = states.map Prod.snd := by
    rw [List.map_map]
    rfl
  have hsteps : (inputs.map Prod.fst).mapM (fun input => step input.2) disk now =
      (.ok results, after) := by
    rw [← hrun, List.map_map, List.mapM_map, List.mapM_map]
    rfl
  have hinput : ∀ input ∈ inputs, ∀ (others : List Tracked) (now after : Shelf) (result : β),
      Invariant disk start now (input.2 :: others) →
      step input.1.2 disk now = (.ok result, after) →
      ∃ moved, Moves input.2 result moved ∧ Invariant disk start after (moved :: others) := by
    intro input hinput others now after result hinvariant hread
    obtain ⟨state, -, rfl⟩ := List.mem_map.mp hinput
    exact hstep state.2 others now after result hinvariant hread
  obtain ⟨moves, hmoves, hresults, hmoved, hafter⟩ := Invariant.mapM hinput (hitems ▸ h) hsteps
  refine ⟨moves.map fun move => ((move.1.1.1, move.1.2), move.2), ?_, ?_, ?_, ?_⟩
  · have hlabels := congrArg (List.map fun input => (input.1.1, input.2)) hmoves
    rw [List.map_map, List.map_map] at hlabels
    rw [List.map_map]
    exact hlabels.trans (List.map_id states)
  · rw [List.map_map]
    exact hresults
  · intro move hmove
    obtain ⟨found, hfound, rfl⟩ := List.mem_map.mp hmove
    exact hmoved found hfound
  · rw [List.map_map]
    exact hafter

theorem Invariant.scan {ι : Type} {states : List (ι × Tracked)} {frame : Frame}
    {keys : List String} {cells : List (List Value)}
    (hrows : (states.map fun state => state.2.row) = frame.rows)
    (h : Invariant disk start now (states.map Prod.snd ++ others))
    (hrun : frame.scan (fun row => keys.mapM row.cell) disk now = (.ok cells, after)) :
    ∃ moves : List ((ι × Tracked) × List Value × Tracked), moves.map Prod.fst = states ∧
      (moves.map fun move => move.2.1) = cells ∧
      (∀ move ∈ moves, Scanned keys move.1.2 move.2.1 move.2.2) ∧
      Invariant disk start after ((moves.map fun move => move.2.2) ++ others) := by
  unfold Frame.scan at hrun
  rw [← hrows] at hrun
  refine Invariant.mapRows (Scanned keys)
    (fun item others now after values hinvariant hread => ?_) h hrun
  obtain ⟨read, between, hcells, hrest⟩ := Reading.bind_eq_ok.mp hread
  obtain ⟨⟨⟩, released, hrelease, hpure⟩ := Reading.bind_eq_ok.mp hrest
  cases hpure
  obtain ⟨later, hgoes, hrow, hshows, hbetween⟩ := hinvariant.cells hcells
  have hreleased : after = (item.row.release disk between).2 := by rw [hrelease]
  exact ⟨later, ⟨hgoes, hrow, hshows⟩, hreleased ▸ hbetween.release item.row⟩

/-! ## Copies of what is left -/

theorem Invariant.copies {ι : Type} {states : List (ι × Tracked)} {copies : List Row}
    (h : Invariant disk start now (states.map Prod.snd ++ others))
    (hrun : Row.copies (states.map fun state => state.2.row) disk now = (.ok copies, after)) :
    ∃ moved : List (ι × Tracked), moved.map Prod.fst = states.map Prod.fst ∧
      (moved.map fun state => state.2.row) = copies ∧
      (∀ state ∈ moved, ∃ former ∈ states, former.1 = state.1 ∧ former.2.Goes state.2) ∧
      Invariant disk start after (moved.map Prod.snd ++ others) := by
  obtain ⟨moves, rfl, rfl, hmoves, hafter⟩ := Invariant.mapRows
    (fun item copy moved => item.Goes moved ∧ moved.row = copy)
    (fun item others now after copy hinvariant hcopy => by
      obtain ⟨made, last, hmade, hmoved⟩ := hinvariant.copy
      rw [hcopy] at hmade
      cases hmade
      exact ⟨{ item with row := copy }, ⟨⟨rfl, fun _ hmem => hmem⟩, rfl⟩, hmoved⟩) h hrun
  refine ⟨moves.map fun move => (move.1.1, move.2.2), ?_, ?_, ?_, ?_⟩
  · rw [List.map_map, List.map_map]
    rfl
  · rw [List.map_map]
    exact List.map_congr_left fun move hmove => (hmoves move hmove).2
  · intro state hstate
    obtain ⟨move, hmove, rfl⟩ := List.mem_map.mp hstate
    exact ⟨move.1, List.mem_map_of_mem hmove, rfl, (hmoves move hmove).1⟩
  · rw [List.map_map]
    exact hafter

/-- Copies take the place of the rows, and nothing else changes. -/
theorem Invariant.copied {copies : List Row} (h : Invariant disk start now (items ++ others))
    (hrun : Row.copies (items.map Tracked.row) disk now = (.ok copies, after)) :
    ∃ moves : List (Tracked × Row), moves.map Prod.fst = items ∧ moves.map Prod.snd = copies ∧
      Invariant disk start after
        ((moves.map fun move => { move.1 with row := move.2 }) ++ others) := by
  induction items generalizing now others copies with
  | nil =>
    cases hrun
    exact ⟨[], rfl, rfl, h⟩
  | cons item items ih =>
    rw [Row.copies, List.map_cons, List.mapM_cons] at hrun
    obtain ⟨copy, between, hcopy, hrest⟩ := Reading.bind_eq_ok.mp hrun
    obtain ⟨rest, last, hcopies, hpure⟩ := Reading.bind_eq_ok.mp hrest
    cases hpure
    obtain ⟨made, next, hmade, hbetween⟩ := h.copy
    cases hcopy.symm.trans hmade
    -- The item that has its copy counts as one of the others.
    obtain ⟨moves, rfl, rfl, hafter⟩ := ih (hbetween.perm List.perm_middle) hcopies
    exact ⟨(item, copy) :: moves, rfl, rfl, hafter.perm List.perm_middle.symm⟩

/-! ## Filters -/

/-- **A filter calls its function with what the rows give**, and goes on with those that it
keeps. -/
theorem Invariant.filter {ι : Type} {states : List (ι × Tracked)} {frame result : Frame}
    {mapping : Mapping} (hrows : (states.map fun state => state.2.row) = frame.rows)
    (h : Invariant disk start now (states.map Prod.snd ++ others))
    (hrun : frame.filter mapping disk now = (.ok result, after)) :
    ∃ (judged : List ((ι × Tracked) × Bool)) (left : List (ι × Tracked)),
      judged.map Prod.fst = states ∧
      (states ≠ [] →
        mapping.Judges (fun state => state.2.source.Yields disk start after) judged) ∧
      left.map Prod.fst = (kept judged).map Prod.fst ∧
      (∀ state ∈ left, ∃ former ∈ states, former.1 = state.1 ∧ former.2.Goes state.2) ∧
      (left.map fun state => state.2.row) = result.rows ∧
      Invariant disk start after (left.map Prod.snd ++ others) := by
  obtain ⟨hempty, hnone, rfl⟩ | ⟨-, cells, between, items, hscan, hcall, hlength, hcopies⟩ :=
    Frame.filter_eq_ok hrun
  · rw [Frame.isEmpty, ← hrows, List.isEmpty_iff, List.map_eq_nil_iff] at hempty
    subst hempty
    exact ⟨[], [], rfl, fun hne => absurd rfl hne, rfl, by simp, hnone.symm, h⟩
  obtain ⟨moves, rfl, rfl, hmoves, hbetween⟩ := h.scan hrows hscan
  have hlater : between.Later disk after := Shelf.later_copies hcopies
  let judgedMoves := moves.zip (items.map Value.isTruthy)
  have hmask : (items.map Value.isTruthy).length = moves.length := by
    rw [List.length_map, hlength, Frame.size, ← hrows, List.length_map, List.length_map]
  have hfst : judgedMoves.map Prod.fst = moves := List.map_fst_zip (Nat.le_of_eq hmask.symm)
  -- The copies stand for what has been read from the rows that are kept.
  let read (move : (ι × Tracked) × List Value × Tracked) : ι × Tracked := (move.1.1, move.2.2)
  have hread : Invariant disk start between
      (((kept judgedMoves).map read).map Prod.snd ++ others) := by
    refine hbetween.sublist (List.Sublist.append_right ?_ others)
    rw [List.map_map]
    have hsublist := (kept_sublist judgedMoves).map fun move => move.2.2
    rwa [hfst] at hsublist
  have hkept : kept (frame.rows.zip (items.map Value.isTruthy)) =
      ((kept judgedMoves).map read).map fun state => state.2.row := by
    rw [List.map_map, map_kept, ← hrows, List.map_map, List.zip_map_left]
    refine congrArg kept (List.map_congr_left fun member hmember => ?_)
    have hmove := hmoves member.1 (hfst ▸ List.mem_map_of_mem hmember)
    exact congrArg (·, member.2) hmove.row.symm
  rw [hkept] at hcopies
  obtain ⟨left, hlabels, hresult, hformer, hafter⟩ := hread.copies hcopies
  refine ⟨judgedMoves.map (Prod.map Prod.fst id), left, ?states, ?judges, ?labels, ?former,
    hresult, hafter⟩
  case states =>
    rw [← congrArg (List.map Prod.fst) hfst, List.map_map, List.map_map]
    rfl
  case judges =>
    intro _
    have hcolumns : mapping.Judges (fun move => move.2.2.Shows) judgedMoves := by
      let reads := moves.map fun move => (move, move.2.1)
      have hmoved : reads.map Prod.fst = moves := by
        rw [List.map_map]
        exact List.map_id moves
      have hcells : reads.map Prod.snd = moves.map fun move => move.2.1 := List.map_map
      have hjudges := Mapping.judges_of_reads
        (fun move : (ι × Tracked) × List Value × Tracked => move.2.2.Shows) reads
        (fun read hread => by
          obtain ⟨move, hmove, rfl⟩ := List.mem_map.mp hread
          exact (hmoves move hmove).shows)
        (hcells ▸ hcall) (by rw [List.length_map, ← hmask, List.length_map])
      rwa [hmoved] at hjudges
    refine Mapping.Judges.map (f := Prod.fst)
      (hcolumns.imp fun member hmember key value hshows => ?_)
    have hmove : member.1 ∈ moves := hfst ▸ List.mem_map_of_mem hmember
    have hsound := hbetween.sound member.1.2.2
      (List.mem_append_left _ (List.mem_map.mpr ⟨member.1, hmove, rfl⟩))
    rw [← (hmoves member.1 hmove).goes.source]
    exact (hsound.yields hshows).mono hlater
  case labels =>
    rw [hlabels, ← map_kept, List.map_map, List.map_map]
    rfl
  case former =>
    intro state hstate
    obtain ⟨former, hformer, hlabel, hgoes⟩ := hformer state hstate
    obtain ⟨move, hmove, rfl⟩ := List.mem_map.mp hformer
    have hmem := hfst ▸ (kept_sublist judgedMoves).subset hmove
    exact ⟨move.1, List.mem_map_of_mem hmem, hlabel, (hmoves move hmem).goes.trans hgoes⟩

/-! ## Splits -/

/-- A row with the tuple that was read from it for a split. -/
structure SplitAt {ι : Type} (keys : List String) (former : ι × Tracked)
    (entry : List Value × ι × Tracked) : Prop where
  label : entry.2.1 = former.1
  source : entry.2.2.source = former.2.source
  given : entry.2.2.given = keys.zip entry.1 ++ former.2.given
  length : entry.1.length = keys.length

/-- Reading a frame for a split, each item keeps its label. -/
theorem Invariant.entries {ι : Type} {states : List (ι × Tracked)} {frame : Frame}
    {keys : List String} {pairs : List (List Value × Row)}
    (hrows : (states.map fun state => state.2.row) = frame.rows)
    (h : Invariant disk start now (states.map Prod.snd ++ others))
    (hrun : frame.readTuples keys disk now = (.ok pairs, after)) :
    ∃ entries : List (List Value × ι × Tracked),
      (entries.map fun entry => (entry.2.1, entry.2.2.source)) =
        (states.map fun state => (state.1, state.2.source)) ∧
      (∀ entry ∈ entries, ∃ former ∈ states, SplitAt keys former entry) ∧
      pairs = (entries.map fun entry => (entry.1, entry.2.2.row)) ∧
      Invariant disk start after ((entries.map fun entry => entry.2.2) ++ others) := by
  have hitems : (states.map Prod.snd).map Tracked.row = frame.rows := by
    rw [List.map_map]
    exact hrows
  obtain ⟨reads, hreads, rfl, hread, hafter⟩ := h.readTuples hitems hrun
  let labelled := (states.map Prod.fst).zip reads
  have hlength : (states.map Prod.fst).length = reads.length := by
    rw [List.length_map, ← List.length_map Prod.snd, ← hreads, List.length_map]
  have hsnd : labelled.map Prod.snd = reads := List.map_snd_zip (Nat.le_of_eq hlength.symm)
  have hformer : (labelled.map fun entry => (entry.1, entry.2.1)) = states := by
    have hzip : (labelled.map fun entry => (entry.1, entry.2.1)) =
        (states.map Prod.fst).zip (reads.map Prod.fst) := List.zip_map_right.symm
    rw [hzip, hreads]
    exact (List.zip_of_prod rfl rfl).symm
  have hat : ∀ entry ∈ labelled, ReadAt keys entry.2.1 entry.2.2.1.1 entry.2.2.1.2 entry.2.2.2 :=
    fun entry hentry => hread entry.2 (hsnd ▸ List.mem_map_of_mem hentry)
  refine ⟨labelled.map fun entry => (entry.2.2.1.1, entry.1, entry.2.2.2), ?_, ?_, ?_, ?_⟩
  · rw [← hformer, List.map_map, List.map_map]
    refine List.map_congr_left fun entry hentry => ?_
    exact congrArg (Prod.mk entry.1) (hat entry hentry).source
  · intro made hmade
    obtain ⟨entry, hentry, rfl⟩ := List.mem_map.mp hmade
    refine ⟨(entry.1, entry.2.1), ?_, rfl, (hat entry hentry).source, (hat entry hentry).given,
      (hat entry hentry).length⟩
    rw [← hformer]
    exact List.mem_map_of_mem hentry
  · rw [← hsnd, List.map_map, List.map_map]
    refine List.map_congr_left fun entry hentry => ?_
    exact congrArg (Prod.mk entry.2.2.1.1) (hat entry hentry).row.symm
  · rw [← hsnd, List.map_map] at hafter
    rw [List.map_map]
    exact hafter

theorem Invariant.groupBy {ι : Type} {states : List (ι × Tracked)} {frame : Frame}
    {keys : List String} {grouping : Grouping}
    (hrows : (states.map fun state => state.2.row) = frame.rows)
    (h : Invariant disk start now (states.map Prod.snd ++ others))
    (hrun : frame.groupBy keys disk now = (.ok grouping, after)) :
    ∃ entries : List (List Value × ι × Tracked),
      (entries.map fun entry => (entry.2.1, entry.2.2.source)) =
        (states.map fun state => (state.1, state.2.source)) ∧
      (∀ entry ∈ entries, ∃ former ∈ states, SplitAt keys former entry) ∧
      grouping = .split keys ((groupByTuple entries).map fun group =>
        (group.1, .whole ⟨group.2.map fun state => state.2.row⟩)) ∧
      Invariant disk start after ((entries.map fun entry => entry.2.2) ++ others) := by
  obtain ⟨pairs, hpairs, rfl⟩ := Frame.groupBy_eq_ok hrun
  obtain ⟨entries, hlabels, hsplit, rfl, hafter⟩ := h.entries hrows hpairs
  refine ⟨entries, hlabels, hsplit, ?_, hafter⟩
  rw [groupByTuple_map (fun state : ι × Tracked => state.2.row), List.map_map]
  rfl

end Tracked

/-! ## Operations on a frame -/

namespace Frame

/-- Every row of what the change makes stands for a row of the frame, with the same label. -/
def Carries (disk : Disk) (change : Frame → Reading Frame) : Prop :=
  ∀ {ι : Type} {start now after : Shelf} {frame result : Frame} {states : List (ι × Tracked)}
    {others : List Tracked}, (states.map fun state => state.2.row) = frame.rows →
    Tracked.Invariant disk start now (states.map Prod.snd ++ others) →
    change frame disk now = (.ok result, after) →
    ∃ moved : List (ι × Tracked), (moved.map fun state => state.2.row) = result.rows ∧
      (∀ state ∈ moved, ∃ former ∈ states, former.1 = state.1 ∧ former.2.Goes state.2) ∧
      Tracked.Invariant disk start after (moved.map Prod.snd ++ others)

theorem carries_copy (disk : Disk) : Carries disk Frame.copy := by
  intro ι start now after frame result states others hrows h hrun
  obtain ⟨copies, between, hcopies, hpure⟩ := Reading.bind_eq_ok.mp hrun
  cases hpure
  obtain ⟨moved, -, hmoved, hformer, hafter⟩ := h.copies (hrows.symm ▸ hcopies)
  exact ⟨moved, hmoved, hformer, hafter⟩

theorem carries_sort (disk : Disk) (keys : List String) (ascending : Bool) :
    Carries disk fun frame => frame.sort keys ascending := by
  intro ι start now after frame result states others hrows h hrun
  obtain ⟨⟨⟩, checked, hcheck, hrest⟩ := Reading.bind_eq_ok.mp hrun
  obtain rfl : now = checked := congrArg Prod.snd hcheck
  obtain ⟨tuples, between, hscan, hrest⟩ := Reading.bind_eq_ok.mp hrest
  obtain ⟨copies, last, hcopies, hpure⟩ := Reading.bind_eq_ok.mp hrest
  cases hpure
  obtain ⟨moves, rfl, rfl, hmoves, hbetween⟩ := h.scan hrows hscan
  let read := moves.map fun move => (move.1.1, move.2.2)
  have hread : (read.map fun state => state.2.row) = frame.rows := by
    rw [← hrows, List.map_map, List.map_map]
    exact List.map_congr_left fun move hmove => (hmoves move hmove).row
  -- The rows are sorted next to their tuples, and the items go along.
  have hlength : frame.rows.length ≤ (moves.map fun move => move.2.1).length := by
    simp only [← hrows, List.length_map, Nat.le_refl]
  have hsorted := (List.mergeSort_perm ((moves.map fun move => move.2.1).zip frame.rows)
    fun left right => if ascending then Value.orderItems left.1 right.1 != .gt
      else Value.orderItems right.1 left.1 != .gt).map Prod.snd
  rw [List.map_snd_zip hlength] at hsorted
  obtain ⟨permuted, hpermuted, hperm⟩ :=
    exists_perm_of_perm_map (hsorted.trans (List.Perm.of_eq hread.symm))
  have hmiddle : Tracked.Invariant disk start between (permuted.map Prod.snd ++ others) := by
    refine hbetween.perm ((hperm.map Prod.snd).append_right others |>.trans ?_)
    rw [List.map_map]
    rfl
  obtain ⟨moved, -, hmoved, hformer, hafter⟩ := hmiddle.copies (hpermuted ▸ hcopies)
  refine ⟨moved, hmoved, fun state hstate => ?_, hafter⟩
  obtain ⟨former, hmem, hlabel, hgoes⟩ := hformer state hstate
  obtain ⟨move, hmove, rfl⟩ := List.mem_map.mp (hperm.mem_iff.mp hmem)
  exact ⟨move.1, List.mem_map_of_mem hmove, hlabel, (hmoves move hmove).goes.trans hgoes⟩

theorem carries_filter (disk : Disk) (mapping : Mapping) :
    Carries disk fun frame => frame.filter mapping := by
  intro ι start now after frame result states others hrows h hrun
  obtain ⟨judged, left, -, -, -, hformer, hleft, hafter⟩ := h.filter hrows hrun
  exact ⟨left, hleft, hformer, hafter⟩

end Frame

end Logbook
