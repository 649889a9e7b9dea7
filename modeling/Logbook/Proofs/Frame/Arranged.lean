import Logbook.Proofs.Frame.Carrying
import Logbook.Proofs.Frame.Followed
import Logbook.Proofs.Frame.Owned
import Logbook.Proofs.Frame.Regular
import Logbook.Proofs.Row.Fixed

/-!
# Groupings that only arrange rows

Splitting, selecting, sorting and filtering arrange the rows of a frame: they read cells and go
on with copies, but no value is computed from others.  So in every grouping that they lead to
(`Grouping.Arranged`) each row has, for good, a value equal to the one in the tuple of its
group (`Grouping.Orderly`), whatever was read in between.

## Strategy

One operation is followed from a fresh start: each leaf of the grouping stands for itself, and
what is written into it counts as read.  `Grouping.Followed` goes through the tree, where each
operation is a change of frames (`Followed.mapFrames`), and at its end every leaf of the result
has been read at the keys of its tuples, so its fields there do not change any more
(`Tracked.Sound.fixed`).  A filter also drops groups that are left without rows, and so without
leaves (`Grouping.leaves_prune`).
-/

namespace Logbook

/-! ## Groups that are dropped -/

namespace Grouping

mutual

/-- The grouping without the groups that have no rows. -/
def prune : Grouping → Grouping
  | whole frame => whole frame
  | split keys groups => split keys (pruneGroups groups)

/-- Some groups without those that have no rows. -/
def pruneGroups : List (List Value × Grouping) → List (List Value × Grouping)
  | [] => []
  | (tuple, group) :: groups =>
      if group.prune.isEmpty then pruneGroups groups
      else (tuple, group.prune) :: pruneGroups groups

end

variable {disk : Disk} {mapping : Mapping}

mutual

/-- A filter filters every frame, and then drops groups. -/
theorem exists_prune_of_filter {grouping result : Grouping} {now after : Shelf}
    (hrun : grouping.filter mapping disk now = (.ok result, after)) :
    ∃ filtered, grouping.mapWhole (fun frame => frame.filter mapping) disk now =
      (.ok filtered, after) ∧ result = filtered.prune := by
  cases grouping with
  | whole frame =>
    rw [filter] at hrun
    obtain ⟨kept, between, hkept, hpure⟩ := Reading.bind_eq_ok.mp hrun
    cases hpure
    exact ⟨_, Reading.bind_of_ok hkept, rfl⟩
  | split keys groups =>
    rw [filter] at hrun
    obtain ⟨results, between, hresults, hpure⟩ := Reading.bind_eq_ok.mp hrun
    cases hpure
    obtain ⟨filtered, hfiltered, rfl⟩ := exists_prune_of_filterGroups hresults
    exact ⟨split keys filtered, Reading.bind_of_ok hfiltered, rfl⟩

theorem exists_prune_of_filterGroups {groups results : List (List Value × Grouping)}
    {now after : Shelf} (hrun : filterGroups mapping groups disk now = (.ok results, after)) :
    ∃ filtered, mapGroups (fun frame => return whole (← frame.filter mapping)) groups disk now =
      (.ok filtered, after) ∧ results = pruneGroups filtered := by
  cases groups with
  | nil =>
    rw [filterGroups] at hrun
    cases hrun
    exact ⟨[], rfl, rfl⟩
  | cons group groups =>
    obtain ⟨tuple, group⟩ := group
    rw [filterGroups] at hrun
    obtain ⟨first, between, hfirst, hrest⟩ := Reading.bind_eq_ok.mp hrun
    obtain ⟨rest, last, hlast, hpure⟩ := Reading.bind_eq_ok.mp hrest
    obtain ⟨filtered, hfiltered, rfl⟩ := exists_prune_of_filter hfirst
    obtain ⟨others, hothers, rfl⟩ := exists_prune_of_filterGroups hlast
    cases hpure
    refine ⟨(tuple, filtered) :: others, ?_, by rw [pruneGroups]⟩
    rw [mapGroups]
    exact (Reading.bind_of_ok hfiltered).trans (Reading.bind_of_ok hothers)

end

theorem leaves_of_isEmpty {grouping : Grouping} (hempty : grouping.isEmpty = true)
    (outer : List (String × Value)) : grouping.leaves outer = [] := by
  cases grouping with
  | whole frame =>
    rw [leaves, List.isEmpty_iff.mp hempty]
    rfl
  | split keys groups =>
    rw [leaves, List.isEmpty_iff.mp hempty]
    rfl

mutual

theorem leaves_prune (outer : List (String × Value)) (grouping : Grouping) :
    grouping.prune.leaves outer = grouping.leaves outer := by
  cases grouping with
  | whole frame => rfl
  | split keys groups => exact leavesOfGroups_prune outer keys groups

theorem leavesOfGroups_prune (outer : List (String × Value)) (keys : List String)
    (groups : List (List Value × Grouping)) :
    leavesOfGroups outer keys (pruneGroups groups) = leavesOfGroups outer keys groups := by
  cases groups with
  | nil => rfl
  | cons group groups =>
    obtain ⟨tuple, group⟩ := group
    have hrest := leavesOfGroups_prune outer keys groups
    have hgroup := leaves_prune (keys.zip tuple ++ outer) group
    rw [pruneGroups, leavesOfGroups]
    by_cases hempty : group.prune.isEmpty
    · rw [if_pos hempty, hrest, ← hgroup, leaves_of_isEmpty hempty, List.nil_append]
    · rw [if_neg hempty, leavesOfGroups, hgroup, hrest]

end

end Grouping

/-! ## What a leaf knows -/

namespace Tracked

variable {disk : Disk} {start now : Shelf} {item : Tracked} {items : List Tracked} {key : String}
  {value : Value}

/-- What was read from a row is fixed in the copy that stands for it. -/
theorem Sound.fixed (h : item.Sound disk start now) (hfaithful : start.Faithful disk)
    (hgiven : (key, value) ∈ item.given) : item.row.Fixed disk now key value := by
  cases hheld : item.row.cellAt? key with
  | some held => exact Row.fixed_of_settled hheld (h.settled key held value hheld hgiven)
  | none =>
    have hplain : item.source.cellAt? key = none := by
      cases hcell : item.source.cellAt? key with
      | none => rfl
      | some cell =>
        obtain ⟨held, hfound, -⟩ := h.cell key cell hcell
        exact absurd (hheld.symm.trans hfound) (by simp)
    obtain ⟨moment, hstart, hnow, hvalue⟩ := h.gave key value hgiven
    rw [← Row.get?_congr (h.plain key hplain)] at hvalue
    have hmoment := hstart.faithful hfaithful
    exact (Row.fixed_of_plain hmoment hheld hvalue).mono hnow

/-- At a fresh start rows stand for themselves, and what they have for good counts as read. -/
theorem Invariant.of_fixed (howned : (⟨items.map Tracked.source⟩ : Frame).Owned now)
    (hrow : ∀ item ∈ items, item.row = item.source)
    (hfixed : ∀ item ∈ items, ∀ entry ∈ item.given, item.source.Fixed disk now entry.1 entry.2) :
    Invariant disk now now items where
  later := .refl
  size_le := Nat.le_refl _
  sound item hitem := by
    have hhoused := howned.housed item.source (List.mem_map_of_mem hitem)
    have hgiven := hfixed item hitem
    obtain ⟨source, row, given⟩ := item
    obtain rfl : row = source := hrow _ hitem
    exact {
      id := rfl
      metrics := rfl
      artifacts := rfl
      sourceHoused := hhoused
      rowHoused := hhoused
      plain := fun _ _ => rfl
      cell := fun _ cell hcell => ⟨cell, hcell, Or.inl rfl⟩
      unread := fun _ _ _ hcell hheld _ => by rw [Option.some_inj.mp (hheld.symm.trans hcell)]
      untouched := fun _ _ _ _ => rfl
      settled := fun key held value hheld hmem => (hgiven (key, value) hmem).settled held hheld
      gave := fun key value hmem =>
        ⟨now, .refl, .refl, (hgiven (key, value) hmem).gives now .refl⟩
      steady := fun _ key value _ hmem => (hgiven (key, value) hmem).gives now .refl }
  apart := by
    refine (List.pairwise_map.mp howned.apart).imp_of_mem fun hleft hright hapart => ⟨hapart, ?_⟩
    rw [hrow _ hleft, hrow _ hright]
    exact hapart

theorem Invariant.owned (h : Invariant disk start now items) :
    (⟨items.map Tracked.row⟩ : Frame).Owned now where
  housed row hrow := by
    obtain ⟨item, hitem, rfl⟩ := List.mem_map.mp hrow
    exact (h.sound item hitem).rowHoused
  apart := List.pairwise_map.mpr (h.apart.imp fun hapart => hapart.2)

end Tracked

/-- A tuple has an equal value for each that an equal tuple has. -/
theorem Value.exists_of_mem_zip {keys : List String} {tuple other : List Value}
    (hsame : sameItems tuple other = true) {field : String × Value}
    (hfield : field ∈ keys.zip tuple) :
    ∃ value, (field.1, value) ∈ keys.zip other ∧ field.2.same value = true := by
  have hentries : sameEntries (keys.zip tuple ++ []) (keys.zip other ++ []) = true :=
    sameEntries_zip_append keys hsame rfl
  rw [List.append_nil, List.append_nil] at hentries
  exact exists_of_sameEntries hentries hfield

/-- A row together with what is written into it, all of which was read from the row. -/
def Leaf.Knows (fields : List (String × Value)) (item : Tracked) : Prop :=
  ∀ field ∈ fields, ∃ given, field.2.same given = true ∧ (field.1, given) ∈ item.given

namespace Grouping

variable {disk : Disk} {start : Shelf}

/-! ## One operation -/

/-- Whatever carries the rows of every frame carries the leaves. -/
theorem Followed.mapWhole {change : Frame → Reading Frame} (hcarries : Frame.Carries disk change)
    {grouping result : Grouping} {outer : List (String × Value)}
    {states : List Leaf.State} {others : List Tracked} {now after : Shelf}
    (h : grouping.Followed Leaf.Knows disk start now outer states others)
    (hrun : grouping.mapWhole change disk now = (.ok result, after)) :
    ∃ next, result.Followed Leaf.Knows disk start after outer next others := by
  suffices hnext : ∃ next, result.Followed Leaf.Knows disk start after outer next others ∧ True by
    simpa using hnext
  refine h.mapFrames (R := fun _ _ => True) trivial (fun _ _ => trivial)
    (fun {frame outer states others result now after} hframe hchanged => ?_) hrun
  obtain ⟨changed, between, hchange, hpure⟩ := Reading.bind_eq_ok.mp hchanged
  cases hpure
  obtain ⟨hrows, houter⟩ := hframe.frame
  obtain ⟨moved, hmoved, hformer, hafter⟩ := hcarries hrows hframe.invariant hchange
  refine ⟨moved, ⟨?_, fun state hstate => ?_, hafter⟩, trivial⟩
  · rw [Grouping.leaves, ← hmoved, List.map_map]
    refine List.map_congr_left fun state hstate => ?_
    obtain ⟨former, hmem, hlabel, -⟩ := hformer state hstate
    exact congrArg (·, state.2.row) (hlabel.symm.trans (houter former hmem))
  · obtain ⟨former, hmem, hlabel, hgoes⟩ := hformer state hstate
    intro field hfield
    obtain ⟨given, hsame, hgiven⟩ := hframe.holds former hmem field (hlabel ▸ hfield)
    exact ⟨given, hsame, hgoes.given hgiven⟩

/-- Splitting every group puts the leaves in another order. -/
theorem Followed.groupBy {keys : List String} {grouping result : Grouping}
    {outer : List (String × Value)} {states : List Leaf.State}
    {others : List Tracked} {now after : Shelf}
    (h : grouping.Followed Leaf.Knows disk start now outer states others)
    (hrun : grouping.groupBy keys disk now = (.ok result, after)) :
    ∃ next, result.Followed Leaf.Knows disk start after outer next others ∧
      (next.map fun state => state.2.source).Perm (states.map fun state => state.2.source) := by
  refine h.mapFrames
    (R := fun states next => (next.map fun state => state.2.source).Perm
      (states.map fun state => state.2.source))
    .nil (fun hhere hthere => ?append)
    (fun {frame outer states others result now after} hframe hsplit => ?_) hrun
  case append =>
    rw [List.map_append, List.map_append]
    exact hhere.append hthere
  obtain ⟨hrows, houter⟩ := hframe.frame
  obtain ⟨entries, hsources, hformer, rfl, hafter⟩ := hframe.invariant.groupBy hrows hsplit
  let next := (groupByTuple entries).flatMap fun group =>
    group.2.map fun state => (keys.zip group.1 ++ outer, state.2)
  have hperm : (next.map Prod.snd).Perm (entries.map fun entry => entry.2.2) := by
    have hentries := (groupByTuple_perm entries).map Prod.snd
    rw [List.map_flatMap, List.map_map] at hentries
    simpa only [next, List.map_flatMap, List.map_map, Function.comp_def] using hentries
  refine ⟨next, ⟨?leaves, ?holds, hafter.perm (hperm.append_right others)⟩, ?sources⟩
  case leaves =>
    have hwhole := leavesOfGroups_whole outer keys ((groupByTuple entries).map fun group =>
      (group.1, group.2.map fun state => state.2.row))
    rw [List.map_map] at hwhole
    rw [Grouping.leaves]
    refine Eq.trans ?_ hwhole.symm
    simp only [next, List.map_flatMap, List.flatMap_map, List.map_map, Function.comp_def]
  case holds =>
    intro state hstate
    obtain ⟨group, hgroup, hstate⟩ := List.mem_flatMap.mp hstate
    obtain ⟨item, hitem, rfl⟩ := List.mem_map.mp hstate
    obtain ⟨tuple, hentry, hsame⟩ := exists_of_mem_groupByTuple hgroup hitem
    obtain ⟨former, hmem, hsplit⟩ := hformer _ hentry
    intro field hfield
    rw [hsplit.given]
    obtain htuple | hbefore := List.mem_append.mp hfield
    · obtain ⟨given, hgiven, hvalue⟩ := Value.exists_of_mem_zip hsame htuple
      exact ⟨given, hvalue, List.mem_append_left _ hgiven⟩
    · rw [← houter former hmem] at hbefore
      obtain ⟨given, hvalue, hgiven⟩ := hframe.holds former hmem field hbefore
      exact ⟨given, hvalue, List.mem_append_right _ hgiven⟩
  case sources =>
    have hstates := congrArg (List.map Prod.snd) hsources
    rw [List.map_map, List.map_map] at hstates
    have hnext := hperm.map Tracked.source
    rw [List.map_map, List.map_map] at hnext
    exact hnext.trans (.of_eq hstates)

/-- A chain of splits, one level after the other. -/
theorem Followed.groupByLevels (levels : List (List String)) {grouping result : Grouping}
    {outer : List (String × Value)} {states : List Leaf.State}
    {others : List Tracked} {now after : Shelf}
    (h : grouping.Followed Leaf.Knows disk start now outer states others)
    (hrun : grouping.groupByLevels levels disk now = (.ok result, after)) :
    ∃ next, result.Followed Leaf.Knows disk start after outer next others ∧
      (next.map fun state => state.2.source).Perm (states.map fun state => state.2.source) := by
  induction levels generalizing grouping states now with
  | nil =>
    cases hrun
    exact ⟨states, h, .refl _⟩
  | cons keys levels ih =>
    obtain ⟨split, between, hsplit, hrest⟩ := Reading.bind_eq_ok.mp hrun
    obtain ⟨first, hfirst, hfirstPerm⟩ := h.groupBy hsplit
    obtain ⟨next, hnext, hnextPerm⟩ := ih hfirst hrest
    exact ⟨next, hnext, hnextPerm.trans hfirstPerm⟩

/-! ## Order -/

/-- What is written into each row of a grouping equals what the row has there for good, and
the rows own their cells. -/
structure Orderly (disk : Disk) (now : Shelf) (grouping : Grouping) : Prop where
  faithful : now.Faithful disk
  owned : (⟨(grouping.leaves []).map Prod.snd⟩ : Frame).Owned now
  known (leaf : Leaf) (hleaf : leaf ∈ grouping.leaves []) (field : String × Value)
    (hfield : field ∈ leaf.1) :
    ∃ given, field.2.same given = true ∧ leaf.2.Fixed disk now field.1 given

variable {now after : Shelf} {grouping result : Grouping}

/-- At a fresh start everything that is written into a leaf counts as read. -/
theorem Orderly.followed (h : grouping.Orderly disk now) :
    ∃ states, grouping.Followed Leaf.Knows disk now now [] states [] := by
  have hgiven : ∀ leaf ∈ grouping.leaves [], ∃ given : List (String × Value),
      (∀ field ∈ leaf.1, ∃ value, field.2.same value = true ∧ (field.1, value) ∈ given) ∧
      ∀ entry ∈ given, leaf.2.Fixed disk now entry.1 entry.2 := by
    intro leaf hleaf
    choose! value hvalue using h.known leaf hleaf
    refine ⟨leaf.1.map fun field => (field.1, value field), fun field hfield =>
      ⟨value field, (hvalue field hfield).1, List.mem_map_of_mem hfield⟩, fun entry hentry => ?_⟩
    obtain ⟨field, hfield, rfl⟩ := List.mem_map.mp hentry
    exact (hvalue field hfield).2
  choose! given hgiven using hgiven
  let item (leaf : Leaf) : Tracked := ⟨leaf.2, leaf.2, given leaf⟩
  refine ⟨(grouping.leaves []).map fun leaf => (leaf.1, item leaf), ?leaves, ?holds, ?invariant⟩
  case leaves =>
    rw [List.map_map]
    exact List.map_id (grouping.leaves [])
  case holds =>
    intro state hstate
    obtain ⟨leaf, hleaf, rfl⟩ := List.mem_map.mp hstate
    exact (hgiven leaf hleaf).1
  case invariant =>
    rw [List.append_nil, List.map_map]
    refine Tracked.Invariant.of_fixed ?_ ?_ ?_
    · rw [List.map_map]
      exact h.owned
    · intro found hfound
      obtain ⟨leaf, -, rfl⟩ := List.mem_map.mp hfound
      rfl
    · intro found hfound
      obtain ⟨leaf, hleaf, rfl⟩ := List.mem_map.mp hfound
      exact (hgiven leaf hleaf).2

theorem Followed.orderly {states : List Leaf.State} (hfaithful : start.Faithful disk)
    (h : grouping.Followed Leaf.Knows disk start now [] states []) :
    grouping.Orderly disk now where
  faithful := h.invariant.later.faithful hfaithful
  owned := by
    have howned := h.invariant.owned
    rw [List.append_nil, List.map_map] at howned
    rw [← h.leaves, List.map_map]
    exact howned
  known leaf hleaf field hfield := by
    rw [← h.leaves] at hleaf
    obtain ⟨state, hstate, rfl⟩ := List.mem_map.mp hleaf
    obtain ⟨given, hsame, hgiven⟩ := h.holds state hstate field hfield
    have hsound := h.invariant.sound state.2 (List.mem_append_left _ (List.mem_map_of_mem hstate))
    exact ⟨given, hsame, hsound.fixed hfaithful hgiven⟩

theorem Orderly.sublist {fewer : Grouping} (h : grouping.Orderly disk now)
    (hfewer : (fewer.leaves []).Sublist (grouping.leaves [])) : fewer.Orderly disk now where
  faithful := h.faithful
  owned :=
    ⟨fun row hrow => h.owned.housed row ((hfewer.map Prod.snd).subset hrow),
      h.owned.apart.sublist (hfewer.map Prod.snd)⟩
  known leaf hleaf := h.known leaf (hfewer.subset hleaf)

theorem Orderly.later (h : grouping.Orderly disk now) (hlater : now.Later disk after) :
    grouping.Orderly disk after where
  faithful := hlater.faithful h.faithful
  owned :=
    ⟨fun row hrow => ⟨fun key cell hcell =>
      Nat.lt_of_lt_of_le ((h.owned.housed row hrow).bound key cell hcell) hlater.size_le,
      (h.owned.housed row hrow).own⟩, h.owned.apart⟩
  known leaf hleaf field hfield := by
    obtain ⟨given, hsame, hfixed⟩ := h.known leaf hleaf field hfield
    exact ⟨given, hsame, hfixed.mono hlater⟩

theorem Orderly.mapWhole {change : Frame → Reading Frame} (hcarries : Frame.Carries disk change)
    (h : grouping.Orderly disk now)
    (hrun : grouping.mapWhole change disk now = (.ok result, after)) :
    result.Orderly disk after := by
  obtain ⟨states, hstates⟩ := h.followed
  obtain ⟨next, hnext⟩ := hstates.mapWhole hcarries hrun
  exact hnext.orderly h.faithful

theorem sublist_leavesOfGroups (outer : List (String × Value)) (keys : List String)
    {fewer groups : List (List Value × Grouping)} (hfewer : fewer.Sublist groups) :
    (leavesOfGroups outer keys fewer).Sublist (leavesOfGroups outer keys groups) := by
  induction hfewer with
  | slnil => exact .slnil
  | cons group _ ih => exact ih.trans (List.sublist_append_right _ _)
  | cons_cons group _ ih => exact (List.Sublist.refl _).append ih

/-- Whether an operation only arranges rows. -/
def Operation.arranges : Operation → Bool
  | groupBy _ => true
  | select _ => true
  | sort _ _ => true
  | filter _ none => true
  | _ => false

/-- **An operation that arranges rows leaves order.** -/
theorem Orderly.perform {operation : Operation} (harranges : operation.arranges = true)
    (h : grouping.Orderly disk now)
    (hrun : operation.perform grouping disk now = (.ok result, after)) :
    result.Orderly disk after := by
  cases operation with
  | groupBy keys =>
    obtain ⟨states, hstates⟩ := h.followed
    obtain ⟨next, hnext, -⟩ := hstates.groupBy hrun
    exact hnext.orderly h.faithful
  | select tuples =>
    cases grouping with
    | whole frame => exact h.mapWhole (Frame.carries_copy disk) hrun
    | split keys groups =>
      refine (h.sublist ?_).mapWhole (Frame.carries_copy disk) hrun
      exact sublist_leavesOfGroups [] keys List.filter_sublist
  | sort keys ascending => exact h.mapWhole (Frame.carries_sort disk keys ascending) hrun
  | filter mapping groups =>
    cases groups with
    | some keys => cases harranges
    | none =>
      obtain ⟨filtered, hfiltered, rfl⟩ := exists_prune_of_filter hrun
      refine (h.mapWhole (Frame.carries_filter disk mapping) hfiltered).sublist ?_
      rw [leaves_prune]
  | mapCells | transform | aggregate | apply => cases harranges

/-- The groupings that splitting, selecting, sorting and filtering lead to from a split of a
frame, with the shelf as it is then.  In between, any rows may be read, released and copied. -/
inductive Arranged (disk : Disk) : Grouping → Shelf → Prop
  | split {frame : Frame} {keys : List String} {grouping : Grouping} {before after : Shelf}
      (howned : frame.Owned before) (hfaithful : before.Faithful disk)
      (hrun : frame.groupBy keys disk before = (.ok grouping, after)) : Arranged disk grouping after
  | performed {operation : Operation} {grouping result : Grouping} {now after : Shelf}
      (harranges : operation.arranges = true) (h : Arranged disk grouping now)
      (hrun : operation.perform grouping disk now = (.ok result, after)) :
      Arranged disk result after
  | later {grouping : Grouping} {now after : Shelf} (h : Arranged disk grouping now)
      (hlater : now.Later disk after) : Arranged disk grouping after

/-- So are splits of the rows that a query gives. -/
theorem arranged_of_query {archive : Archive} {query : String} {frame : Frame}
    {keys : List String} {before : Shelf} (hfaithful : before.Faithful disk)
    (hquery : archive.query query disk before = (.ok frame, now))
    (hrun : frame.groupBy keys disk now = (.ok grouping, after)) :
    Arranged disk grouping after := by
  refine .split (Frame.owned_of_query hquery) ?_ hrun
  obtain ⟨runs, between, hfind, hrest⟩ := Reading.bind_eq_ok.mp hquery
  obtain ⟨rows, last, hrows, hpure⟩ := Reading.bind_eq_ok.mp hrest
  cases hpure
  obtain rfl : before = between := congrArg Prod.snd hfind
  clear hfind hquery hrest hrun
  induction runs generalizing before rows with
  | nil =>
    cases hrows
    exact hfaithful
  | cons run runs ih =>
    rw [List.mapM_cons] at hrows
    obtain ⟨row, next, hrow, hrest⟩ := Reading.bind_eq_ok.mp hrows
    obtain ⟨others, last, hothers, hpure⟩ := Reading.bind_eq_ok.mp hrest
    cases hpure
    cases hrow
    exact ih (hfaithful.ofDocument run.1 run.2 _ archive.codecs) others hothers

theorem Arranged.orderly (h : Arranged disk grouping now) : grouping.Orderly disk now := by
  induction h with
  | @split frame keys grouping before after howned hfaithful hrun =>
    have hwhole : (whole frame).Orderly disk before := by
      refine ⟨hfaithful, ?_, fun leaf hleaf field hfield => ?_⟩
      · have hrows : ((whole frame).leaves []).map Prod.snd = frame.rows := by
          rw [leaves, List.map_map]
          exact List.map_id frame.rows
        rw [hrows]
        exact howned
      · obtain ⟨row, -, rfl⟩ := List.mem_map.mp hleaf
        cases hfield
    have hperform : (Operation.groupBy keys).perform (whole frame) disk before =
        (.ok grouping, after) := hrun
    exact hwhole.perform rfl hperform
  | performed harranges _ hrun ih => exact ih.perform harranges hrun
  | later _ hlater ih => exact ih.later hlater

theorem Arranged.sound (h : Arranged disk grouping now) : ∃ keys, grouping.Sound keys := by
  induction h with
  | split _ _ hrun => exact ⟨_, sound_of_frame hrun⟩
  | performed _ _ hrun ih =>
    obtain ⟨keys, hsound⟩ := ih
    exact ⟨keys, hsound.perform _ hrun⟩
  | later _ _ ih => exact ih

end Grouping

end Logbook
