import Logbook.Proofs.Frame.Followed
import Logbook.Proofs.Frame.Owned
import Logbook.Proofs.Frame.Tracking
import Mathlib.Data.List.Forall2

/-!
# Ungrouping gives the rows back

Grouping a frame any number of times and ungrouping the result gives the rows of the
frame in another order.  Every row is the one it was, but for the keys it was grouped
by: there it has a value equal to its own.

## Strategy

Each leaf of the grouping is followed by a `Tracked` item for the row it comes from.
One grouping of a frame (`Frame.follows_groupBy`) moves all items to copies and puts them
in the order of `partitionByTuple`; each leaf gets the tuple of its group, which equals
the one that was read from its row.  This goes through the tree
(`Grouping.follows_groupBy`), through a chain of groupings (`Frame.follows_groupByChain`),
and at last through the copies that ungrouping makes (`Grouping.follows_ungroup`).
-/

namespace Logbook

/-! ## Leaves and the rows they come from -/

/-- A leaf stands for a tracked row: what is written into it equals what was read from
the row, at the keys that have been read. -/
structure Leaf.Follows (read : List String) (leaf : Leaf) (item : Tracked) : Prop where
  row : item.row = leaf.2
  written : Value.sameEntries leaf.1 item.given = true
  keys (key : String) : key ∈ item.given.map Prod.fst ↔ key ∈ read

theorem Leaf.Follows.congr_read {read other : List String} {leaf : Leaf} {item : Tracked}
    (h : leaf.Follows read item) (hread : ∀ key, key ∈ read ↔ key ∈ other) :
    leaf.Follows other item :=
  ⟨h.row, h.written, fun key => (h.keys key).trans (hread key)⟩

namespace Frame

variable {disk : Disk} {start now after : Shelf} {read : List String}

/-- **Grouping a frame partitions its rows**, and each leaf follows the row it comes from
as before. -/
theorem follows_groupBy {frame : Frame} {keys : List String} {outer : List (String × Value)}
    {items others : List Tracked} {grouping : Grouping}
    (hrows : items.map Tracked.row = frame.rows)
    (hfollows : ∀ item ∈ items, Leaf.Follows read (outer, item.row) item)
    (h : Tracked.Invariant disk start now (items ++ others))
    (hrun : frame.groupBy keys disk now = (.ok grouping, after)) :
    ∃ (pairs : List (List Value × Row)) (states : List (Leaf × Tracked)),
      frame.readTuples keys disk now = (.ok pairs, after) ∧
      states.map Prod.fst = grouping.leaves outer ∧
      (∀ state ∈ states, state.1.Follows (keys ++ read) state.2) ∧
      (states.map fun state => (state.1.1, state.2.source)) =
        (partitionByTuple ((pairs.map Prod.fst).zip (items.map Tracked.source))).map
          (fun part => (keys.zip part.1 ++ outer, part.2)) ∧
      (states.map fun state => state.2.source).Perm (items.map Tracked.source) ∧
      Tracked.Invariant disk start after (states.map Prod.snd ++ others) := by
  obtain ⟨pairs, hpairs, rfl⟩ := groupBy_eq_ok hrun
  obtain ⟨reads, rfl, rfl, hreads, hafter⟩ := h.readTuples hrows hpairs
  -- Each read carries its own tuple through the partition, next to the one of its group.
  let remembered := reads.map fun read => (read.2.1.1, read)
  let parts := partitionByTuple remembered
  have hperm : (parts.map Prod.snd).Perm reads := by
    have hsnd : remembered.map Prod.snd = reads := by
      rw [List.map_map]
      exact List.map_id reads
    exact hsnd ▸ partitionByTuple_perm remembered
  have hmem : ∀ part ∈ parts, part.2 ∈ reads := fun part hpart =>
    hperm.mem_iff.mp (List.mem_map_of_mem hpart)
  have hsame : ∀ part ∈ parts, Value.sameItems part.1 part.2.2.1.1 = true := by
    let own := fun read : Tracked × (List Value × Row) × Tracked => read.2.1.1
    refine sameItems_of_mem_partitionByTuple own fun pair hpair => ?_
    obtain ⟨read, -, rfl⟩ := List.mem_map.mp hpair
    rfl
  have hsource : ∀ part ∈ parts, part.2.2.2.source = part.2.1.source := fun part hpart =>
    (hreads part.2 (hmem part hpart)).source
  let states : List (Leaf × Tracked) :=
    parts.map fun part => ((keys.zip part.1 ++ outer, part.2.2.1.2), part.2.2.2)
  refine ⟨_, states, hpairs, ?leaves, ?follows, ?order, ?perm, ?invariant⟩
  case leaves =>
    have hforget : (reads.map fun read => read.2.1) =
        remembered.map fun pair => (pair.1, pair.2.2.1.2) := by
      rw [List.map_map]
      rfl
    rw [Grouping.leaves, Grouping.leavesOfGroups_whole, flatMap_groupByTuple, hforget,
      partitionByTuple_map (fun read => read.2.1.2) remembered, List.map_map, List.map_map]
    rfl
  case follows =>
    intro state hstate
    obtain ⟨part, hpart, rfl⟩ := List.mem_map.mp hstate
    have hread := hreads part.2 (hmem part hpart)
    have hitem := hfollows part.2.1 (List.mem_map_of_mem (hmem part hpart))
    refine ⟨hread.row, ?_, fun key => ?_⟩
    · rw [hread.given]
      exact Value.sameEntries_zip_append keys (hsame part hpart) hitem.written
    · rw [hread.given, List.map_append, List.map_fst_zip (Nat.le_of_eq hread.length.symm),
        List.mem_append, List.mem_append, hitem.keys]
  case order =>
    have hzip : ((reads.map fun read => read.2.1).map Prod.fst).zip
          ((reads.map Prod.fst).map Tracked.source) =
        remembered.map fun pair => (pair.1, pair.2.1.source) := by
      rw [List.map_map, List.map_map, List.map_map, List.zip_map']
      rfl
    rw [hzip, partitionByTuple_map (fun read => read.1.source) remembered, List.map_map,
      List.map_map]
    refine List.map_congr_left fun part hpart => ?_
    exact congrArg (Prod.mk (keys.zip part.1 ++ outer)) (hsource part hpart)
  case perm =>
    have hstates : (states.map fun state => state.2.source) =
        (parts.map Prod.snd).map fun read => read.1.source := by
      rw [List.map_map, List.map_map]
      exact List.map_congr_left hsource
    have hitems : (reads.map Prod.fst).map Tracked.source = reads.map fun read => read.1.source :=
      List.map_map
    rw [hstates, hitems]
    exact hperm.map _
  case invariant =>
    have hstates : states.map Prod.snd = (parts.map Prod.snd).map fun read => read.2.2 := by
      rw [List.map_map, List.map_map]
      rfl
    rw [hstates]
    exact hafter.perm ((hperm.map _).append_right others)

end Frame

/-! ## Going through a tree -/

namespace Grouping

variable {disk : Disk} {start : Shelf} {read keys : List String}

/-- The items of leaves as `Followed` has them. -/
theorem followed_of_follows {grouping : Grouping} {outer : List (String × Value)}
    {states : List (Leaf × Tracked)} {others : List Tracked} {now : Shelf}
    (hleaves : states.map Prod.fst = grouping.leaves outer)
    (hfollows : ∀ state ∈ states, state.1.Follows read state.2)
    (h : Tracked.Invariant disk start now (states.map Prod.snd ++ others)) :
    grouping.Followed (fun fields item => Leaf.Follows read (fields, item.row) item) disk start now
      outer (states.map fun state => (state.1.1, state.2)) others where
  leaves := by
    rw [← hleaves, List.map_map]
    exact List.map_congr_left fun state hstate =>
      congrArg (Prod.mk state.1.1) (hfollows state hstate).row
  holds state hstate := by
    obtain ⟨found, hfound, rfl⟩ := List.mem_map.mp hstate
    have hfollow := hfollows found hfound
    exact ⟨rfl, hfollow.written, hfollow.keys⟩
  invariant := by
    rw [List.map_map]
    exact h

theorem takes_groupBy : Frame.Takes (fun fields item => Leaf.Follows read (fields, item.row) item)
    (fun fields item => Leaf.Follows (keys ++ read) (fields, item.row) item)
    (fun states next => (next.map fun state => state.2.source).Perm
      (states.map fun state => state.2.source)) disk start fun frame => frame.groupBy keys := by
  intro frame outer states others result now after hframe hrun
  obtain ⟨hrows, houter⟩ := hframe.frame
  have hitems : ∀ item ∈ states.map Prod.snd, Leaf.Follows read (outer, item.row) item := by
    intro item hitem
    obtain ⟨state, hstate, rfl⟩ := List.mem_map.mp hitem
    exact houter state hstate ▸ hframe.holds state hstate
  have hrows : (states.map Prod.snd).map Tracked.row = frame.rows := by
    rw [List.map_map]
    exact hrows
  obtain ⟨pairs, next, -, hnext, hnextFollows, -, hperm, hafter⟩ :=
    Frame.follows_groupBy hrows hitems hframe.invariant hrun
  refine ⟨_, followed_of_follows hnext hnextFollows hafter, ?_⟩
  rw [List.map_map] at hperm ⊢
  exact hperm

/-- Splitting every group moves all leaves to copies and changes their order. -/
theorem follows_groupBy {grouping split : Grouping} {outer : List (String × Value)}
    {states : List (Leaf × Tracked)} {others : List Tracked} {now after : Shelf}
    (hleaves : states.map Prod.fst = grouping.leaves outer)
    (hfollows : ∀ state ∈ states, state.1.Follows read state.2)
    (h : Tracked.Invariant disk start now (states.map Prod.snd ++ others))
    (hrun : grouping.groupBy keys disk now = (.ok split, after)) :
    ∃ next : List (Leaf × Tracked), next.map Prod.fst = split.leaves outer ∧
      (∀ state ∈ next, state.1.Follows (keys ++ read) state.2) ∧
      (next.map fun state => state.2.source).Perm (states.map fun state => state.2.source) ∧
      Tracked.Invariant disk start after (next.map Prod.snd ++ others) := by
  obtain ⟨next, hnext, hperm⟩ := (followed_of_follows hleaves hfollows h).mapFrames .nil
    (fun hhere hthere => by simpa only [List.map_append] using hhere.append hthere)
    takes_groupBy hrun
  refine ⟨next.map fun state => ((state.1, state.2.row), state.2), ?_, fun state hstate => ?_,
    ?_, ?_⟩
  · rw [List.map_map]
    exact hnext.leaves
  · obtain ⟨found, hfound, rfl⟩ := List.mem_map.mp hstate
    exact hnext.holds found hfound
  · rw [List.map_map] at hperm ⊢
    exact hperm
  · rw [List.map_map]
    exact hnext.invariant

/-- A chain of groupings, one level after the other. -/
theorem follows_groupByLevels (levels : List (List String)) {grouping result : Grouping}
    {outer : List (String × Value)} {states : List (Leaf × Tracked)} {now after : Shelf}
    (hleaves : states.map Prod.fst = grouping.leaves outer)
    (hfollows : ∀ state ∈ states, state.1.Follows read state.2)
    (h : Tracked.Invariant disk start now (states.map Prod.snd))
    (hrun : grouping.groupByLevels levels disk now = (.ok result, after)) :
    ∃ next : List (Leaf × Tracked), next.map Prod.fst = result.leaves outer ∧
      (∀ state ∈ next, state.1.Follows (levels.flatten ++ read) state.2) ∧
      (next.map fun state => state.2.source).Perm (states.map fun state => state.2.source) ∧
      (levels = [] → next = states) ∧
      Tracked.Invariant disk start after (next.map Prod.snd) := by
  induction levels generalizing grouping states read now with
  | nil =>
    cases hrun
    exact ⟨states, hleaves, hfollows, List.Perm.refl _, fun _ => rfl, h⟩
  | cons keys levels ih =>
    obtain ⟨split, between, hsplit, hrest⟩ := Reading.bind_eq_ok.mp hrun
    rw [← List.append_nil (states.map Prod.snd)] at h
    obtain ⟨first, hfirst, hfirstFollows, hfirstPerm, hbetween⟩ :=
      follows_groupBy hleaves hfollows h hsplit
    rw [List.append_nil] at hbetween
    obtain ⟨next, hnext, hnextFollows, hnextPerm, -, hafter⟩ :=
      ih hfirst hfirstFollows hbetween hrest
    refine ⟨next, hnext, fun state hstate => ?_, hnextPerm.trans hfirstPerm, by simp, hafter⟩
    refine (hnextFollows state hstate).congr_read fun key => ?_
    simp only [List.flatten_cons, List.mem_append]
    rw [or_assoc, or_left_comm]

/-- Copying the leaves keeps what is written into them, the rows that they follow and what
was read from those. -/
theorem follows_copyLeaf {states : List (Leaf × Tracked)} {copies : List Leaf} {now after : Shelf}
    (hfollows : ∀ state ∈ states, state.1.Follows read state.2)
    (h : Tracked.Invariant disk start now (states.map Prod.snd))
    (hrun : (states.map Prod.fst).mapM copyLeaf disk now = (.ok copies, after)) :
    ∃ next : List (Leaf × Tracked), next.map Prod.fst = copies ∧
      (∀ state ∈ next, state.1.Follows read state.2) ∧
      (next.map fun state => (state.1.1, state.2.source, state.2.given)) =
        (states.map fun state => (state.1.1, state.2.source, state.2.given)) ∧
      Tracked.Invariant disk start after (next.map Prod.snd) := by
  have hstep : ∀ state ∈ states, ∀ (others : List Tracked) (now after : Shelf) (copied : Leaf),
      Tracked.Invariant disk start now (state.2 :: others) →
      copyLeaf state.1 disk now = (.ok copied, after) →
      ∃ moved, (copied.Follows read moved ∧
          (copied.1, moved.source, moved.given) = (state.1.1, state.2.source, state.2.given)) ∧
        Tracked.Invariant disk start after (moved :: others) := by
    intro state hstate others now after copied hinvariant hcopied
    obtain ⟨hfields, hcopy⟩ := copyLeaf_eq_ok.mp hcopied
    obtain ⟨hrow, hwritten, hkeys⟩ := hfollows state hstate
    obtain ⟨copy, last, hmade, hmoved⟩ := hinvariant.copy
    rw [hrow, hcopy] at hmade
    obtain ⟨rfl, rfl⟩ : copied.2 = copy ∧ after = last := by
      cases hmade
      exact ⟨rfl, rfl⟩
    exact ⟨{ state.2 with row := copied.2 }, ⟨⟨rfl, hfields ▸ hwritten, hkeys⟩, by rw [hfields]⟩,
      hmoved⟩
  rw [← List.append_nil (states.map Prod.snd)] at h
  obtain ⟨moves, rfl, rfl, hmoves, hafter⟩ := h.mapM hstep hrun
  refine ⟨moves.map Prod.snd, ?_, ?_, ?_, ?_⟩
  · rw [List.map_map]
    rfl
  · intro state hstate
    obtain ⟨move, hmove, rfl⟩ := List.mem_map.mp hstate
    exact (hmoves move hmove).1
  · rw [List.map_map, List.map_map]
    exact List.map_congr_left fun move hmove => (hmoves move hmove).2
  · rw [List.append_nil] at hafter
    rw [List.map_map]
    exact hafter

/-- Ungrouping succeeds, and gives copies of the leaves with everything written into them. -/
theorem follows_ungroup {grouping : Grouping} {states : List (Leaf × Tracked)} {now : Shelf}
    (hleaves : states.map Prod.fst = grouping.leaves [])
    (hfollows : ∀ state ∈ states, state.1.Follows read state.2)
    (h : Tracked.Invariant disk start now (states.map Prod.snd)) :
    ∃ (out : Frame) (after : Shelf) (final : List (Leaf × Tracked)),
      grouping.ungroup disk now = (.ok out, after) ∧
      out.rows = (final.map fun state => state.1.2.update state.1.1) ∧
      (∀ state ∈ final, state.1.Follows read state.2) ∧
      (final.map fun state => (state.1.1, state.2.source, state.2.given)) =
        (states.map fun state => (state.1.1, state.2.source, state.2.given)) ∧
      Tracked.Invariant disk start after (final.map Prod.snd) := by
  obtain ⟨copied, after, hcopy, hcopyLeaves⟩ := leaves_copy grouping disk now
  have hcopies := hcopyLeaves []
  rw [← hleaves] at hcopies
  obtain ⟨final, hfinal, hfinalFollows, hfinalOrder, hafter⟩ := follows_copyLeaf hfollows h hcopies
  refine ⟨⟨copied.rows⟩, after, final, ?_, ?_, hfinalFollows, hfinalOrder, hafter⟩
  · unfold ungroup
    rw [Reading.bind_of_ok hcopy]
    rfl
  · rw [rows_eq_leaves, ← hfinal, List.map_map]
    rfl

end Grouping

/-! ## The rows that come out -/

/-- A field and its copy: a computed field has what was in its cell in another one. -/
inductive Slot.CopiedTo (before after : Shelf) : Slot → Slot → Prop where
  | value (value : Value) : CopiedTo before after (.value value) (.value value)
  | metric (loader : Nat) : CopiedTo before after (.metric loader) (.metric loader)
  | artifacts (loader : Nat) : CopiedTo before after (.artifacts loader) (.artifacts loader)
  | computed {cell copy : Nat} (h : after.cells[copy]? = before.cells[cell]?) :
      CopiedTo before after (.computed cell) (.computed copy)

/-- The copy has the fields that are not computed, and those that have not been read. -/
theorem Tracked.Sound.copiedTo {disk : Disk} {start now : Shelf} {item : Tracked} {key : String}
    (h : item.Sound disk start now)
    (hunread : ∀ cell, item.source.cellAt? key = some cell → key ∉ item.given.map Prod.fst) :
    Option.Rel (Slot.CopiedTo start now) (item.source.slots.get? key)
      (item.row.slots.get? key) := by
  cases hcell : item.source.cellAt? key with
  | some cell =>
    obtain ⟨held, hheld, -⟩ := h.cell key cell hcell
    rw [Row.cellAt?_eq_some_iff.mp hcell, Row.cellAt?_eq_some_iff.mp hheld]
    exact .some (.computed (h.unread key cell held hcell hheld (hunread cell hcell)))
  | none =>
    rw [h.plain key hcell]
    cases hslot : item.source.slots.get? key with
    | none => exact .none
    | some slot =>
      cases slot with
      | value value => exact .some (.value value)
      | metric loader => exact .some (.metric loader)
      | artifacts loader => exact .some (.artifacts loader)
      | computed cell => simp [Row.cellAt?, hslot] at hcell

/-- What grouping by some keys and ungrouping makes of a row: it is the same but for the
keys, and there it has values that equal what the row gave when it was grouped. -/
structure Row.RegroupedTo (disk : Disk) (keys : List String) (before grouped after : Shelf)
    (source row : Row) : Prop where
  id : row.id = source.id
  metrics : row.metrics = source.metrics
  artifacts : row.artifacts = source.artifacts
  kept (key : String) (hkey : key ∉ keys) :
    Option.Rel (Slot.CopiedTo before after) (source.slots.get? key) (row.slots.get? key)
  written (key : String) (hkey : key ∈ keys) :
    ∃ value given, row.slots.get? key = some (.value value) ∧ value.same given = true ∧
      source.Gave disk before grouped key given

/-- A row has the given values; of values for one key the last. -/
def Row.Holds (fields : List (String × Value)) (row : Row) : Prop :=
  ∀ key ∈ fields.map Prod.fst,
    row.slots.get? key = ((SortedMap.ofList fields).get? key).map Slot.value

theorem Row.holds_update (fields : List (String × Value)) (row : Row) :
    (row.update fields).Holds fields := by
  intro key hkey
  obtain ⟨value, hvalue⟩ := SortedMap.exists_get?_ofList hkey
  rw [Row.get?_update, hvalue]
  rfl

/-- A cell of a row into which values have been written was there before. -/
theorem Row.cellAt?_of_update {fields : List (String × Value)} {row : Row} {key : String}
    {cell : Nat} (hcell : (row.update fields).cellAt? key = some cell) :
    row.cellAt? key = some cell := by
  rw [Row.cellAt?_eq_some_iff, Row.get?_update] at hcell
  cases hwritten : (SortedMap.ofList fields).get? key with
  | none =>
    rw [hwritten] at hcell
    exact Row.cellAt?_eq_some_iff.mpr hcell
  | some value =>
    rw [hwritten] at hcell
    cases hcell

/-- Groups a frame by some keys, and the result by the keys of each further level. -/
def Frame.groupByChain (frame : Frame) (keys : List String) (levels : List (List String)) :
    Reading Grouping := do
  (← frame.groupBy keys).groupByLevels levels

section Ungroup

variable {disk : Disk} {before grouped after : Shelf}

/-- At the start every row stands for itself. -/
theorem Frame.Owned.invariant {frame : Frame} (h : frame.Owned before) (disk : Disk) :
    Tracked.Invariant disk before before (frame.rows.map fun row => ⟨row, row, []⟩) where
  later := .refl
  size_le := Nat.le_refl _
  sound item hitem := by
    obtain ⟨row, hrow, rfl⟩ := List.mem_map.mp hitem
    exact {
      id := rfl
      metrics := rfl
      artifacts := rfl
      sourceHoused := h.housed row hrow
      rowHoused := h.housed row hrow
      plain := fun _ _ => rfl
      cell := fun _ cell hcell => ⟨cell, hcell, Or.inl rfl⟩
      unread := fun _ _ _ hcell hheld _ => by rw [Option.some_inj.mp (hheld.symm.trans hcell)]
      untouched := fun _ _ _ _ => rfl
      settled := fun _ _ _ _ hgiven => absurd hgiven List.not_mem_nil
      gave := fun _ _ hgiven => absurd hgiven List.not_mem_nil
      steady := fun _ _ _ _ hgiven => absurd hgiven List.not_mem_nil }
  apart := List.pairwise_map.mpr (h.apart.imp fun hapart => ⟨hapart, hapart⟩)

/-- A leaf with everything written into it is the row that it follows, regrouped. -/
theorem Leaf.Follows.regroupedTo {keys : List String} {leaf : Leaf} {item : Tracked}
    (h : leaf.Follows keys item) (hsound : item.Sound disk before after)
    (hgave : ∀ key value, (key, value) ∈ item.given →
      item.source.Gave disk before grouped key value) :
    item.source.RegroupedTo disk keys before grouped after (leaf.2.update leaf.1) := by
  obtain ⟨hrow, hwritten, hkeys⟩ := h
  have hnames : ∀ key, key ∈ leaf.1.map Prod.fst ↔ key ∈ keys := fun key => by
    rw [Value.keys_of_sameEntries hwritten, hkeys]
  rw [← hrow]
  refine ⟨?_, ?_, ?_, fun key hkey => ?_, fun key hkey => ?_⟩
  · rw [Row.id_update, hsound.id]
  · rw [Row.metrics_update, hsound.metrics]
  · rw [Row.artifacts_update, hsound.artifacts]
  · have hunwritten : key ∉ leaf.1.map Prod.fst := fun hmem => hkey ((hnames key).mp hmem)
    have hunread : key ∉ item.given.map Prod.fst := fun hmem => hkey ((hkeys key).mp hmem)
    rw [Row.slot_of_update _ hunwritten]
    exact hsound.copiedTo fun _ _ => hunread
  · obtain ⟨value, hvalue, hslot⟩ := Row.exists_slot_of_update ((hnames key).mpr hkey)
    obtain ⟨given, hgiven, hsame⟩ := Value.exists_of_sameEntries hwritten hvalue
    exact ⟨value, given, hslot _, hsame, hgave key given hgiven⟩

/-- After a chain of groupings each leaf follows a row of the frame, and what is written
into it is what was read from the row. -/
theorem Frame.follows_groupByChain {frame : Frame} {keys : List String}
    {levels : List (List String)} {grouping : Grouping} (howned : frame.Owned before)
    (hchain : frame.groupByChain keys levels disk before = (.ok grouping, grouped)) :
    ∃ states : List (Leaf × Tracked), states.map Prod.fst = grouping.leaves [] ∧
      (∀ state ∈ states, state.1.Follows (keys :: levels).flatten state.2) ∧
      (states.map fun state => state.2.source).Perm frame.rows ∧
      (levels = [] → ∃ pairs, frame.readTuples keys disk before = (.ok pairs, grouped) ∧
        (states.map fun state => (state.1.1, state.2.source)) =
          (partitionByTuple ((pairs.map Prod.fst).zip frame.rows)).map fun part =>
            (keys.zip part.1, part.2)) ∧
      Tracked.Invariant disk before grouped (states.map Prod.snd) := by
  obtain ⟨first, between, hfirst, hlevels⟩ := Reading.bind_eq_ok.mp hchain
  let items : List Tracked := frame.rows.map fun row => ⟨row, row, []⟩
  have hrows : items.map Tracked.row = frame.rows := by
    rw [List.map_map]
    exact List.map_id frame.rows
  have hsources : items.map Tracked.source = frame.rows := by
    rw [List.map_map]
    exact List.map_id frame.rows
  have hitems : ∀ item ∈ items, Leaf.Follows [] ([], item.row) item := by
    intro item hitem
    obtain ⟨row, -, rfl⟩ := List.mem_map.mp hitem
    exact ⟨rfl, rfl, fun _ => Iff.rfl⟩
  have hstart : Tracked.Invariant disk before before (items ++ []) := by
    rw [List.append_nil]
    exact howned.invariant disk
  obtain ⟨pairs, states, hpairs, hleaves, hfollows, horder, hperm, hbetween⟩ :=
    Frame.follows_groupBy hrows hitems hstart hfirst
  rw [List.append_nil] at hbetween
  obtain ⟨last, hlast, hlastFollows, hlastPerm, hsingle, hgrouped⟩ :=
    Grouping.follows_groupByLevels levels hleaves hfollows hbetween hlevels
  refine ⟨last, hlast, fun state hstate => ?_, hsources ▸ hlastPerm.trans hperm, ?_, hgrouped⟩
  · refine (hlastFollows state hstate).congr_read fun key => ?_
    simp only [List.append_nil, List.flatten_cons, List.mem_append]
    exact Or.comm
  · rintro rfl
    obtain rfl := hsingle rfl
    cases hlevels
    simp only [List.append_nil, hsources] at horder
    exact ⟨pairs, hpairs, horder⟩

/-- The rows that come out have cells of their own again. -/
theorem Frame.owned_ungroup {frame out : Frame} {keys : List String} {levels : List (List String)}
    {grouping : Grouping} (howned : frame.Owned before)
    (hchain : frame.groupByChain keys levels disk before = (.ok grouping, grouped))
    (hrun : grouping.ungroup disk grouped = (.ok out, after)) : out.Owned after := by
  obtain ⟨states, hleaves, hfollows, -, -, hgrouped⟩ := Frame.follows_groupByChain howned hchain
  obtain ⟨made, last, final, hungroup, hout, hfinalFollows, -, hafter⟩ :=
    Grouping.follows_ungroup hleaves hfollows hgrouped
  cases hrun.symm.trans hungroup
  -- Writing values into a row takes cells away from it, but gives it none.
  have hcell : ∀ state ∈ final, ∀ key cell,
      (state.1.2.update state.1.1).cellAt? key = some cell →
      state.2.row.cellAt? key = some cell := by
    intro state hstate key cell hupdated
    rw [(hfinalFollows state hstate).row]
    exact Row.cellAt?_of_update hupdated
  refine ⟨fun row hrow => ?_, ?_⟩
  · rw [hout] at hrow
    obtain ⟨state, hstate, rfl⟩ := List.mem_map.mp hrow
    have hhoused := (hafter.sound state.2 (List.mem_map_of_mem hstate)).rowHoused
    have hown := hcell state hstate
    exact ⟨fun key cell hkey => hhoused.bound key cell (hown key cell hkey),
      fun key other cell hkey hother =>
        hhoused.own key other cell (hown key cell hkey) (hown other cell hother)⟩
  · rw [hout]
    refine List.pairwise_map.mpr ((List.pairwise_map.mp hafter.apart).imp_of_mem ?_)
    intro left right hleft hright hapart key other cell hkey hother
    exact hapart.2 key other cell (hcell left hleft key cell hkey)
      (hcell right hright other cell hother)

/-- **Ungrouping gives the rows of the frame back, in another order.**  Every row is the
one it was outside the keys that it was grouped by, and has values equal to its own
there.  After a single grouping the order is that of the stable partition by tuples, and
the tuple that is written is the one of the first row of each group. -/
theorem Frame.exists_ungroup_of_groupBy {frame : Frame} {keys : List String}
    {levels : List (List String)} {grouping : Grouping} (howned : frame.Owned before)
    (hchain : frame.groupByChain keys levels disk before = (.ok grouping, grouped)) :
    ∃ out after sources, grouping.ungroup disk grouped = (.ok out, after) ∧
      sources.Perm frame.rows ∧
      List.Forall₂ (Row.RegroupedTo disk (keys :: levels).flatten before grouped after) sources
        out.rows ∧
      (levels = [] → ∃ pairs, frame.readTuples keys disk before = (.ok pairs, grouped) ∧
        let parts := partitionByTuple ((pairs.map Prod.fst).zip frame.rows)
        sources = parts.map Prod.snd ∧
          List.Forall₂ (fun part row => row.Holds (keys.zip part.1)) parts out.rows) := by
  obtain ⟨states, hleaves, hfollows, hperm, hsingle, hgrouped⟩ :=
    Frame.follows_groupByChain howned hchain
  obtain ⟨out, after, final, hungroup, hout, hfinalFollows, hfinalOrder, hafter⟩ :=
    Grouping.follows_ungroup hleaves hfollows hgrouped
  have hsources : (final.map fun state => state.2.source) =
      states.map fun state => state.2.source := by
    have hstates := congrArg (List.map fun entry => entry.2.1) hfinalOrder
    rwa [List.map_map, List.map_map] at hstates
  refine ⟨out, after, final.map fun state => state.2.source, hungroup, hsources ▸ hperm, ?rows,
    ?single⟩
  case rows =>
    rw [hout, List.forall₂_map_left_iff, List.forall₂_map_right_iff, List.forall₂_same]
    intro state hstate
    refine (hfinalFollows state hstate).regroupedTo
      (hafter.sound state.2 (List.mem_map_of_mem hstate)) ?_
    -- What was read had been read before the copies were made.
    obtain ⟨earlier, hearlier, heq⟩ := List.mem_map.mp (hfinalOrder ▸ List.mem_map_of_mem hstate :
      (state.1.1, state.2.source, state.2.given) ∈
        states.map fun state => (state.1.1, state.2.source, state.2.given))
    obtain ⟨-, hrest⟩ := Prod.mk.inj heq
    obtain ⟨hsource, hgiven⟩ := Prod.mk.inj hrest
    rw [← hsource, ← hgiven]
    exact (hgrouped.sound earlier.2 (List.mem_map_of_mem hearlier)).gave
  case single =>
    intro hlevels
    obtain ⟨pairs, hpairs, horder⟩ := hsingle hlevels
    let parts := partitionByTuple ((pairs.map Prod.fst).zip frame.rows)
    have hfields : (parts.map fun part => keys.zip part.1) = final.map fun state => state.1.1 := by
      have hstates := congrArg (List.map Prod.fst) horder
      have hfinals := congrArg (List.map fun entry => entry.1) hfinalOrder
      rw [List.map_map, List.map_map] at hstates hfinals
      exact (hfinals.trans hstates).symm
    refine ⟨pairs, hpairs, ?_, ?_⟩
    · have hstates := congrArg (List.map Prod.snd) horder
      rw [List.map_map, List.map_map] at hstates
      exact hsources.trans hstates
    · have hholds : List.Forall₂ (fun fields row => Row.Holds fields row)
          (final.map fun state => state.1.1)
          (final.map fun state => state.1.2.update state.1.1) := by
        rw [List.forall₂_map_left_iff, List.forall₂_map_right_iff, List.forall₂_same]
        exact fun state _ => Row.holds_update state.1.1 state.1.2
      rw [hout]
      rw [← hfields] at hholds
      exact List.forall₂_map_left_iff.mp hholds

end Ungroup

/-- Three rows, one with a computed field, are split by one key, where an integer and a
double are equal, and then by another.  They come back. -/
theorem Frame.exists_ungroup_of_two_levels :
    let plain := [
      Row.ofFields (some 1) [("config.lr", .int 1), ("config.seed", .null)],
      Row.ofFields (some 2) [("config.lr", .int 2), ("config.seed", .null)],
      Row.ofFields (some 3) [("config.lr", .float (.ofInt 1)), ("config.seed", .int 7)]]
    let shelf := (Shelf.addComputed (fun _ _ => .ok .null) {}).2
    let frame : Frame := ⟨plain.modifyHead fun row => row.insert "note" (.computed 0)⟩
    let disk := Disk.empty ⟨"/runs"⟩
    frame.Owned shelf ∧ ∃ grouping grouped out after sources,
      frame.groupByChain ["config.lr"] [["config.seed"]] disk shelf = (.ok grouping, grouped) ∧
      grouping.ungroup disk grouped = (.ok out, after) ∧ sources.Perm frame.rows ∧
      List.Forall₂ (Row.RegroupedTo disk ["config.lr", "config.seed"] shelf grouped after) sources
        out.rows := by
  intro plain shelf frame disk
  have howned : frame.Owned shelf := by
    refine Frame.Owned.insert_computed_head (Frame.owned_of_plain (fun row hrow key => ?_) {})
      "note" _
    simp only [List.mem_cons, List.not_mem_nil, or_false] at hrow
    obtain rfl | rfl | rfl := hrow <;> exact Row.cellAt?_ofFields _ _ key
  have hsucceeds :
      (frame.groupByChain ["config.lr"] [["config.seed"]] disk shelf).1.isOk = true := by
    decide +kernel
  rcases hchain : frame.groupByChain ["config.lr"] [["config.seed"]] disk shelf with
    ⟨error | grouping, grouped⟩
  · rw [hchain] at hsucceeds
    cases hsucceeds
  · obtain ⟨out, after, sources, hungroup, hperm, hrows, -⟩ :=
      Frame.exists_ungroup_of_groupBy howned hchain
    exact ⟨howned, grouping, grouped, out, after, sources, rfl, hungroup, hperm, hrows⟩

end Logbook
