import Logbook.Proofs.Frame.Arranged
import Logbook.Proofs.Frame.Parts
import Logbook.Proofs.Frame.Ungroup
import Mathlib.Data.List.Flatten

/-!
# The rows that a filter by groups of other keys leaves

Such a filter ungroups a grouping, splits all rows by other keys and filters the groups.  What
is left is copies of rows at some `places` of the grouping, into which two things have been
written: the tuples of the place and the tuple of the group.  Both equal what the row gives at
those keys (`Grouping.Survives`), and the rows that are left are those for which the function
has given a true value in their group (`Grouping.Orderly.exists_left`).

## Strategy

One `Tracked` item goes with each row, and its source is the row with the tuples of its place
written into it.  It is copied (`Orderly.ungroup`), split (`Orderly.exists_entries`), filtered
(`Invariant.filterGroups`), and gets the tuple of its group written (`Sound.update`).
-/

namespace Logbook

/-! ## Writing into a row and its copy -/

namespace Row

variable {fields : List (String × Value)} {key : String}

theorem notMem_of_cellAt?_update {row : Row} {cell : Nat}
    (hcell : (row.update fields).cellAt? key = some cell) : key ∉ fields.map Prod.fst := by
  intro hkey
  obtain ⟨value, -, hslot⟩ := exists_slot_of_update hkey
  rw [cellAt?_eq_some_iff, hslot] at hcell
  cases hcell

theorem Housed.update {row : Row} {shelf : Shelf} (h : row.Housed shelf) :
    (row.update fields).Housed shelf where
  bound key cell hcell := h.bound key cell (cellAt?_of_update hcell)
  own key other cell hcell hother :=
    h.own key other cell (cellAt?_of_update hcell) (cellAt?_of_update hother)

theorem Apart.update {left right : Row} {others : List (String × Value)} (h : left.Apart right) :
    (left.update fields).Apart (right.update others) :=
  fun key other cell hcell hother =>
    h key other cell (cellAt?_of_update hcell) (cellAt?_of_update hother)

theorem Gave.congr {disk : Disk} {before after : Shelf} {row other : Row} {value : Value}
    (hslot : row.slots.get? key = other.slots.get? key)
    (h : row.Gave disk before after key value) : other.Gave disk before after key value := by
  obtain ⟨moment, hbefore, hafter, hvalue⟩ := h
  exact ⟨moment, hbefore, hafter, by rwa [get?_congr hslot] at hvalue⟩

end Row

namespace Tracked

variable {disk : Disk} {start now : Shelf} {item : Tracked} {key : String}

/-- Values are written into the row and the copy alike; what was read there does not count any
more. -/
def update (item : Tracked) (fields : List (String × Value)) : Tracked where
  source := item.source.update fields
  row := item.row.update fields
  given := item.given.filter fun entry => entry.1 ∉ fields.map Prod.fst

theorem Sound.update (h : item.Sound disk start now) (fields : List (String × Value)) :
    (item.update fields).Sound disk start now := by
  have hgiven : ∀ entry ∈ (item.update fields).given,
      entry ∈ item.given ∧ entry.1 ∉ fields.map Prod.fst := fun entry hentry => by
    simpa [Tracked.update] using hentry
  have hunread : ∀ key cell, (item.update fields).source.cellAt? key = some cell →
      key ∉ (item.update fields).given.map Prod.fst → key ∉ item.given.map Prod.fst := by
    intro key cell hcell hkey hread
    obtain ⟨entry, hentry, rfl⟩ := List.mem_map.mp hread
    refine hkey (List.mem_map_of_mem (List.mem_filter.mpr ⟨hentry, ?_⟩))
    exact decide_eq_true (Row.notMem_of_cellAt?_update hcell)
  exact {
    id := by rw [Tracked.update, Row.id_update, Row.id_update, h.id]
    metrics := by rw [Tracked.update, Row.metrics_update, Row.metrics_update, h.metrics]
    artifacts := by rw [Tracked.update, Row.artifacts_update, Row.artifacts_update, h.artifacts]
    sourceHoused := h.sourceHoused.update
    rowHoused := h.rowHoused.update
    plain := fun key hplain => by
      by_cases hkey : key ∈ fields.map Prod.fst
      · obtain ⟨value, -, hslot⟩ := Row.exists_slot_of_update hkey
        exact (hslot item.row).trans (hslot item.source).symm
      · have hslot := Row.slot_of_update item.source hkey
        refine (Row.slot_of_update item.row hkey).trans ((h.plain key ?_).trans hslot.symm)
        have hsource : (item.source.update fields).cellAt? key = none := hplain
        unfold Row.cellAt? at hsource ⊢
        rwa [hslot] at hsource
    cell := fun key cell hcell => by
      have hkey := Row.notMem_of_cellAt?_update hcell
      obtain ⟨held, hheld, hcases⟩ := h.cell key cell (Row.cellAt?_of_update hcell)
      refine ⟨held, ?_, hcases⟩
      rw [Row.cellAt?_eq_some_iff] at hheld ⊢
      exact (Row.slot_of_update item.row hkey).trans hheld
    unread := fun key cell held hcell hheld hkey =>
      h.unread key cell held (Row.cellAt?_of_update hcell) (Row.cellAt?_of_update hheld)
        (hunread key cell hcell hkey)
    untouched := fun key cell hcell hkey =>
      h.untouched key cell (Row.cellAt?_of_update hcell) (hunread key cell hcell hkey)
    settled := fun key held value hheld hmem =>
      h.settled key held value (Row.cellAt?_of_update hheld) (hgiven _ hmem).1
    gave := fun key value hmem => by
      obtain ⟨hread, hkey⟩ := hgiven _ hmem
      exact (h.gave key value hread).congr (Row.slot_of_update item.source hkey).symm
    steady := fun hfaithful key value hsteady hmem => by
      obtain ⟨hread, hkey⟩ := hgiven _ hmem
      have hslot : (item.update fields).source.slots.get? key = item.source.slots.get? key :=
        Row.slot_of_update item.source hkey
      rw [Row.get?_congr hslot]
      exact h.steady hfaithful key value ((Row.steady_congr hslot).mp hsteady) hread }

theorem Invariant.update {α : Type} {places : List α} (item : α → Tracked)
    (fields : α → List (String × Value)) (h : Invariant disk start now (places.map item)) :
    Invariant disk start now (places.map fun place => (item place).update (fields place)) where
  later := h.later
  size_le := h.size_le
  sound found hfound := by
    obtain ⟨place, hplace, rfl⟩ := List.mem_map.mp hfound
    exact (h.sound (item place) (List.mem_map_of_mem hplace)).update (fields place)
  apart := by
    refine List.pairwise_map.mpr ((List.pairwise_map.mp h.apart).imp fun hapart => ?_)
    exact ⟨hapart.1.update, hapart.2.update⟩

end Tracked

/-! ## Rows that stand for others -/

namespace Tracked

variable {disk : Disk} {before after : Shelf} {item : Tracked}

end Tracked

/-! ## Ungrouping -/

namespace Grouping

variable {disk : Disk} {before after : Shelf} {grouping : Grouping}

/-- The row at a place with all that the tuples above it write. -/
def written (place : Address × Row) : Row := place.2.update place.1.fields

theorem leaves_eq_map_places (grouping : Grouping) :
    grouping.leaves [] = grouping.places.map fun place => (place.1.fields, place.2) := by
  rw [leaves_eq_places]
  exact List.map_congr_left fun place _ => congrArg (·, place.2) (List.append_nil _)

theorem copies_of_copyLeaf {leaves copied : List Leaf}
    (hrun : leaves.mapM copyLeaf disk before = (.ok copied, after)) :
    copied.map Prod.fst = leaves.map Prod.fst ∧
      Row.copies (leaves.map Prod.snd) disk before = (.ok (copied.map Prod.snd), after) := by
  induction leaves generalizing copied before with
  | nil =>
    cases hrun
    exact ⟨rfl, rfl⟩
  | cons leaf leaves ih =>
    rw [List.mapM_cons] at hrun
    obtain ⟨first, between, hfirst, hrest⟩ := Reading.bind_eq_ok.mp hrun
    obtain ⟨rest, last, hlast, hpure⟩ := Reading.bind_eq_ok.mp hrest
    cases hpure
    obtain ⟨hfields, hcopy⟩ := copyLeaf_eq_ok.mp hfirst
    obtain ⟨hrestFields, hcopies⟩ := ih hlast
    refine ⟨by rw [List.map_cons, List.map_cons, hfields, hrestFields], ?_⟩
    rw [Row.copies] at hcopies ⊢
    rw [List.map_cons, List.mapM_cons, Reading.bind_of_ok hcopy, Reading.bind_of_ok hcopies]
    rfl

theorem Orderly.ungroup {flat : Frame} (h : grouping.Orderly disk before)
    (hrun : grouping.ungroup disk before = (.ok flat, after)) :
    ∃ states : List ((Address × Row) × Tracked),
      (states.map fun state => (state.1, state.2.source)) =
        (grouping.places.map fun place => (place, written place)) ∧
      (states.map fun state => state.2.row) = flat.rows ∧
      Tracked.Invariant disk before after (states.map Prod.snd) := by
  obtain ⟨copied, last, hcopied, hleaves⟩ := leaves_copy grouping disk before
  have hflat : grouping.ungroup disk before = (.ok ⟨copied.rows⟩, last) := by
    unfold Grouping.ungroup
    rw [Reading.bind_of_ok hcopied]
    rfl
  cases hrun.symm.trans hflat
  obtain ⟨hfields, hcopies⟩ := copies_of_copyLeaf (hleaves [])
  let start := grouping.places.map fun place => (place, (⟨place.2, place.2, []⟩ : Tracked))
  have hstart : Tracked.Invariant disk before before (start.map Prod.snd ++ []) := by
    have hinvariant := h.owned.invariant disk
    rw [leaves_eq_map_places, List.map_map, List.map_map] at hinvariant
    rw [List.append_nil, List.map_map]
    exact hinvariant
  have hrows : (grouping.leaves []).map Prod.snd = start.map fun state => state.2.row := by
    rw [leaves_eq_map_places, List.map_map, List.map_map]
    rfl
  obtain ⟨moved, hlabels, hmoved, hformer, hafter⟩ := hstart.copies (hrows ▸ hcopies)
  rw [List.append_nil] at hafter
  have hplaces : moved.map Prod.fst = grouping.places := by
    rw [hlabels, List.map_map]
    exact List.map_id grouping.places
  refine ⟨moved.map fun state => (state.1, state.2.update state.1.1.fields), ?_, ?_, ?_⟩
  · rw [← hplaces, List.map_map, List.map_map]
    refine List.map_congr_left fun state hstate => ?_
    obtain ⟨former, hmem, hlabel, hgoes⟩ := hformer state hstate
    obtain ⟨place, -, rfl⟩ := List.mem_map.mp hmem
    obtain rfl : place = state.1 := hlabel
    exact congrArg (fun row => (state.1, row.update state.1.1.fields)) hgoes.source
  · have hleaf : copied.leaves [] = moved.map fun state => (state.1.1.fields, state.2.row) := by
      rw [List.zip_of_prod hfields hmoved.symm, leaves_eq_map_places, ← hplaces, List.map_map,
        List.map_map, List.zip_map']
      rfl
    rw [rows_eq_leaves, hleaf, List.map_map, List.map_map]
    rfl
  · rw [List.map_map]
    exact hafter.update Prod.snd fun state => state.1.1.fields

end Grouping

/-! ## Filtering by groups -/

/-- A group is left out if it has no rows, which takes no row away. -/
theorem Grouping.rowsOfGroups_cons_unless_isEmpty (keys : List String) (tuple : List Value)
    (frame : Frame) (groups : List (List Value × Grouping)) :
    rowsOfGroups keys
        (if (whole frame).isEmpty then groups else (tuple, .whole frame) :: groups) =
      (frame.rows.map fun row => row.update (keys.zip tuple)) ++ rowsOfGroups keys groups := by
  by_cases hempty : (whole frame).isEmpty
  · rw [if_pos hempty, List.isEmpty_iff.mp hempty, List.map_nil, List.nil_append]
  · rw [if_neg hempty]
    rfl

namespace Tracked

variable {disk : Disk} {start now after : Shelf} {mapping : Mapping}

theorem Invariant.filterGroups {ι : Type} (keys : List String)
    {groups : List (List Value × List (ι × Tracked))} {results : List (List Value × Grouping)}
    {others : List Tracked} (hne : ∀ group ∈ groups, group.2 ≠ [])
    (h : Invariant disk start now ((groups.flatMap Prod.snd).map Prod.snd ++ others))
    (hrun : Grouping.filterGroups mapping (groups.map fun group =>
      (group.1, .whole ⟨group.2.map fun state => state.2.row⟩)) disk now = (.ok results, after)) :
    ∃ (judged : List (List Value × List ((ι × Tracked) × Bool)))
      (left : List (List Value × ι × Tracked)),
      (judged.map fun group => (group.1, group.2.map Prod.fst)) = groups ∧
      (∀ group ∈ judged,
        mapping.Judges (fun state => state.2.source.Yields disk start after) group.2) ∧
      (left.map fun entry => entry.2.1) =
        judged.flatMap (fun group => (kept group.2).map Prod.fst) ∧
      (∀ entry ∈ left, ∃ group ∈ groups, group.1 = entry.1 ∧ ∃ former ∈ group.2,
        former.1 = entry.2.1 ∧ former.2.Goes entry.2.2) ∧
      Grouping.rowsOfGroups keys results =
        (left.map fun entry => entry.2.2.row.update (keys.zip entry.1)) ∧
      now.Later disk after ∧
      Invariant disk start after ((left.map fun entry => entry.2.2) ++ others) := by
  induction groups generalizing now after results others with
  | nil =>
    rw [List.map_nil, Grouping.filterGroups] at hrun
    cases hrun
    exact ⟨[], [], rfl, by simp, rfl, by simp, rfl, .refl, h⟩
  | cons group groups ih =>
    obtain ⟨tuple, states⟩ := group
    rw [List.map_cons, Grouping.filterGroups] at hrun
    obtain ⟨first, between, hfirst, hrest⟩ := Reading.bind_eq_ok.mp hrun
    obtain ⟨rest, last, hlast, hpure⟩ := Reading.bind_eq_ok.mp hrest
    cases hpure
    rw [Grouping.filter] at hfirst
    obtain ⟨frame, filtered, hframe, hwhole⟩ := Reading.bind_eq_ok.mp hfirst
    cases hwhole
    have hhere : Invariant disk start now
        (states.map Prod.snd ++ ((groups.flatMap Prod.snd).map Prod.snd ++ others)) := by
      rwa [List.flatMap_cons, List.map_append, List.append_assoc] at h
    obtain ⟨judgedHere, here, hhereStates, hhereJudges, hhereLabels, hhereFormer, hhereRows,
      hbetween⟩ := hhere.filter rfl hframe
    -- The rows that are kept now count as others.
    have haside := hbetween.perm (List.perm_append_comm_assoc _ _ _).symm
    obtain ⟨judged, left, rfl, hjudges, hlabels, hformer, hrows, hlater, hafter⟩ :=
      ih (fun group hgroup => hne group (List.mem_cons_of_mem _ hgroup)) haside hlast
    subst hhereStates
    refine ⟨(tuple, judgedHere) :: judged, here.map (Prod.mk tuple) ++ left, rfl, ?judges,
      ?labels, ?former, ?rows, (Frame.later_filter hframe).trans hlater, ?invariant⟩
    case judges =>
      intro group hgroup
      obtain rfl | hmem := List.mem_cons.mp hgroup
      · exact (hhereJudges (hne (tuple, _) List.mem_cons_self)).imp fun state _ key value hyields =>
          hyields.mono hlater
      · exact hjudges group hmem
    case labels =>
      rw [List.map_append, hlabels, List.map_map, List.flatMap_cons, ← hhereLabels]
      rfl
    case former =>
      intro entry hentry
      obtain hmem | hmem := List.mem_append.mp hentry
      · obtain ⟨state, hstate, rfl⟩ := List.mem_map.mp hmem
        exact ⟨_, List.mem_cons_self, rfl, hhereFormer state hstate⟩
      · obtain ⟨group, hgroup, hrest⟩ := hformer entry hmem
        exact ⟨group, List.mem_cons_of_mem _ hgroup, hrest⟩
    case rows =>
      refine (Grouping.rowsOfGroups_cons_unless_isEmpty keys tuple frame rest).trans ?_
      rw [hrows, ← hhereRows, List.map_append, List.map_map, List.map_map]
      rfl
    case invariant =>
      rw [List.map_append, List.map_map, List.append_assoc]
      exact hafter.perm (List.perm_append_comm_assoc _ _ _)

end Tracked

namespace Grouping

variable {disk : Disk} {before flattened grouped after : Shelf} {grouping : Grouping}
  {mapping : Mapping} {keys : List String}

/-- The row of a place with the tuple that was read from it. -/
structure ReadAt (keys : List String) (entry : List Value × (Address × Row) × Tracked) : Prop where
  source : entry.2.2.source = written entry.2.1
  given : keys.zip entry.1 ⊆ entry.2.2.given
  length : entry.1.length = keys.length

theorem Orderly.exists_entries {flat : Frame} {regrouped : Grouping}
    (h : grouping.Orderly disk before)
    (hungroup : grouping.ungroup disk before = (.ok flat, flattened))
    (hsplit : flat.groupBy keys disk flattened = (.ok regrouped, grouped)) :
    ∃ entries : List (List Value × (Address × Row) × Tracked),
      (entries.map fun entry => entry.2.1) = grouping.places ∧
      (∀ entry ∈ entries, ReadAt keys entry) ∧
      regrouped = .split keys ((groupByTuple entries).map fun group =>
        (group.1, .whole ⟨group.2.map fun state => state.2.row⟩)) ∧
      Tracked.Invariant disk before grouped (entries.map fun entry => entry.2.2) := by
  obtain ⟨states, hstates, hflat, hflattened⟩ := h.ungroup hungroup
  rw [← List.append_nil (states.map Prod.snd)] at hflattened
  obtain ⟨entries, hentries, hformer, hregrouped, hgrouped⟩ := hflattened.groupBy hflat hsplit
  rw [List.append_nil] at hgrouped
  have hplaces := hentries.trans hstates
  refine ⟨entries, ?_, fun entry hentry => ?_, hregrouped, hgrouped⟩
  · have hlabels := congrArg (List.map Prod.fst) hplaces
    rw [List.map_map, List.map_map] at hlabels
    exact hlabels.trans (List.map_id grouping.places)
  · have hmem : (entry.2.1, entry.2.2.source) ∈
        grouping.places.map fun place => (place, written place) :=
      hplaces ▸ List.mem_map_of_mem hentry
    obtain ⟨place, -, heq⟩ := List.mem_map.mp hmem
    obtain ⟨hplace, hwritten⟩ := Prod.mk.inj heq
    obtain ⟨former, -, hread⟩ := hformer entry hentry
    refine ⟨by rw [← hplace, hwritten], fun field hfield => ?_, hread.length⟩
    rw [hread.given]
    exact List.mem_append_left _ hfield

/-- A row that is left by a filter by groups, with the tuple of its group and its place: the
tuple has been written into it, and equals what the row gives. -/
structure Survives (disk : Disk) (before after : Shelf) (keys : List String)
    (entry : List Value × (Address × Row) × Tracked) : Prop where
  source : entry.2.2.source = (written entry.2.1).update (keys.zip entry.1)
  fields : ∀ field ∈ keys.zip entry.1, ∃ given, field.2.same given = true ∧
    (written entry.2.1).Gave disk before after field.1 given

/-- A row that was read and split is left, and an equal tuple is written into it. -/
theorem ReadAt.survives {tuple : List Value} {former : (Address × Row) × Tracked}
    {found : List Value × (Address × Row) × Tracked} (h : ReadAt keys (tuple, former))
    (hplace : former.1 = found.2.1) (hgoes : former.2.Goes found.2.2)
    (hsame : Value.sameItems found.1 tuple = true) (hsound : found.2.2.Sound disk before after) :
    Survives disk before after keys
      (found.1, found.2.1, found.2.2.update (keys.zip found.1)) := by
  have hsource : found.2.2.source = written found.2.1 := by
    rw [hgoes.source, h.source, hplace]
  refine ⟨congrArg (Row.update · _) hsource, fun field hfield => ?_⟩
  obtain ⟨given, hgiven, hvalue⟩ := Value.exists_of_mem_zip hsame hfield
  have hgave := hsound.gave field.1 given (hgoes.given (h.given hgiven))
  exact ⟨given, hvalue, hsource ▸ hgave⟩

theorem Survives.mono {entry : List Value × (Address × Row) × Tracked} {middle : Shelf}
    (h : Survives disk before middle keys entry) (hlater : middle.Later disk after) :
    Survives disk before after keys entry where
  source := h.source
  fields field hfield := by
    obtain ⟨given, hsame, hgave⟩ := h.fields field hfield
    exact ⟨given, hsame, hgave.mono hlater⟩

/-- Some places are split by what their rows give at the keys, the function has given a truth
value for each, and the rows for which it is true are left. -/
structure Sifted (disk : Disk) (before after : Shelf) (mapping : Mapping) (keys : List String)
    (places : List (Address × Row)) (judged : List (List Value × List ((Address × Row) × Bool)))
    (left : List (List Value × (Address × Row) × Tracked)) : Prop where
  split : ∃ tuples : List (List Value),
    List.Forall₂ (fun place tuple =>
      List.Forall₂ ((written place).Gave disk before after) keys tuple) places tuples ∧
    (judged.map fun group => (group.1, group.2.map Prod.fst)) = groupByTuple (tuples.zip places)
  judges : ∀ group ∈ judged,
    mapping.Judges (fun place => (written place).Yields disk before after) group.2
  labels : (left.map fun entry => entry.2.1) = judged.flatMap fun group => kept group.2
  survives : ∀ entry ∈ left, Survives disk before after keys entry

theorem Sifted.mono {places : List (Address × Row)}
    {judged : List (List Value × List ((Address × Row) × Bool))}
    {left : List (List Value × (Address × Row) × Tracked)} {middle : Shelf}
    (h : Sifted disk before middle mapping keys places judged left)
    (hlater : middle.Later disk after) :
    Sifted disk before after mapping keys places judged left where
  split := by
    obtain ⟨tuples, htuples, hparts⟩ := h.split
    exact ⟨tuples,
      htuples.imp fun _ _ hread => hread.imp fun _ _ hgave => hgave.mono hlater, hparts⟩
  judges group hgroup :=
    (h.judges group hgroup).imp fun _ _ _ _ hyields => hyields.mono hlater
  labels := h.labels
  survives entry hentry := (h.survives entry hentry).mono hlater

theorem Sifted.subperm {places : List (Address × Row)}
    {judged : List (List Value × List ((Address × Row) × Bool))}
    {left : List (List Value × (Address × Row) × Tracked)}
    (h : Sifted disk before after mapping keys places judged left) :
    (left.map fun entry => entry.2.1).Subperm places := by
  obtain ⟨tuples, htuples, hparts⟩ := h.split
  have hall := groupByTuple_perm (tuples.zip places)
  rw [← hparts, List.flatMap_map, List.map_snd_zip (Nat.le_of_eq htuples.length_eq)] at hall
  have hsublist : (judged.flatMap fun group => kept group.2).Sublist
      (judged.flatMap fun group => group.2.map Prod.fst) :=
    List.Sublist.flatMap_right judged fun group _ => kept_sublist group.2
  rw [h.labels]
  exact hsublist.subperm.trans hall.subperm

theorem Orderly.exists_left {flat : Frame} {regrouped filtered : Grouping}
    (h : grouping.Orderly disk before)
    (hungroup : grouping.ungroup disk before = (.ok flat, flattened))
    (hsplit : flat.groupBy keys disk flattened = (.ok regrouped, grouped))
    (hfilter : regrouped.filter mapping disk grouped = (.ok filtered, after)) :
    ∃ judged left, Sifted disk before after mapping keys grouping.places judged left ∧
      filtered.rows = (left.map fun entry => entry.2.2.row) ∧
      Tracked.Invariant disk before after (left.map fun entry => entry.2.2) := by
  obtain ⟨entries, hplaces, hread, rfl, hgrouped⟩ := h.exists_entries hungroup hsplit
  rw [filter] at hfilter
  obtain ⟨results, last, hresults, hpure⟩ := Reading.bind_eq_ok.mp hfilter
  cases hpure
  have hinvariant : Tracked.Invariant disk before grouped
      (((groupByTuple entries).flatMap Prod.snd).map Prod.snd ++ []) := by
    have hperm := (groupByTuple_perm entries).map Prod.snd
    rw [List.map_map] at hperm
    rw [List.append_nil]
    exact hgrouped.perm hperm
  obtain ⟨judged, left, hjudged, hjudges, hlabels, hleft, hrows, hlater, hafter⟩ :=
    hinvariant.filterGroups keys (fun group hgroup => ne_nil_of_mem_groupByTuple hgroup) hresults
  rw [List.append_nil] at hafter
  refine ⟨judged.map fun group => (group.1, group.2.map (Prod.map Prod.fst id)),
    left.map fun entry => (entry.1, entry.2.1, entry.2.2.update (keys.zip entry.1)),
    ⟨⟨entries.map Prod.fst, ?tuples, ?parts⟩, ?judges, ?labels, ?survives⟩, ?rows, ?invariant⟩
  case tuples =>
    rw [← hplaces, List.forall₂_map_left_iff, List.forall₂_map_right_iff, List.forall₂_same]
    intro entry hentry
    refine List.forall₂_iff_zip.mpr ⟨(hread entry hentry).length.symm, fun {key value} hmem => ?_⟩
    have hsound := hgrouped.sound entry.2.2 (List.mem_map.mpr ⟨entry, hentry, rfl⟩)
    have hgave := hsound.gave key value ((hread entry hentry).given hmem)
    rw [(hread entry hentry).source] at hgave
    exact hgave.mono hlater
  case parts =>
    rw [← hplaces, List.zip_map', groupByTuple_map Prod.fst entries, ← hjudged, List.map_map,
      List.map_map]
    refine List.map_congr_left fun group _ => congrArg (Prod.mk group.1) ?_
    simp only [List.map_map, Function.comp_def, Prod.map_fst]
  case judges =>
    intro group hgroup
    obtain ⟨found, hfound, rfl⟩ := List.mem_map.mp hgroup
    refine Mapping.Judges.map (f := Prod.fst)
      ((hjudges found hfound).imp fun member hmember key value hyields => ?_)
    have hgroup : (found.1, found.2.map Prod.fst) ∈ groupByTuple entries :=
      hjudged ▸ List.mem_map_of_mem hfound
    obtain ⟨tuple, hentry, -⟩ := exists_of_mem_groupByTuple hgroup (List.mem_map_of_mem hmember)
    rwa [(hread _ hentry).source] at hyields
  case labels =>
    rw [List.map_map, List.flatMap_map]
    simp only [← map_kept]
    exact hlabels
  case survives =>
    intro entry hentry
    obtain ⟨found, hfound, rfl⟩ := List.mem_map.mp hentry
    obtain ⟨group, hgroup, htuple, former, hformer, hlabel, hgoes⟩ := hleft found hfound
    obtain ⟨tuple, hmem, hsame⟩ := exists_of_mem_groupByTuple hgroup hformer
    have hsound := hafter.sound found.2.2 (List.mem_map.mpr ⟨found, hfound, rfl⟩)
    exact (hread _ hmem).survives hlabel hgoes (htuple ▸ hsame) hsound
  case rows =>
    rw [Grouping.rows, hrows, List.map_map]
    rfl
  case invariant =>
    rw [List.map_map]
    exact Tracked.Invariant.update (fun entry : List Value × (Address × Row) × Tracked => entry.2.2)
      (fun entry => keys.zip entry.1) hafter

end Grouping

end Logbook
