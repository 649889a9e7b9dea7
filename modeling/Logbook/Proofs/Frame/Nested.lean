import Logbook.Proofs.Frame.Parts
import Logbook.Proofs.Frame.Steady
import Mathlib.Data.List.Forall2
import Mathlib.Data.List.Perm.Basic

/-!
# Splitting by some keys and then by others

A frame that is split by some keys, and whose groups are split by others, has the parts of a frame
that is split by all the keys at once, in another order: the part under two tuples is the group
under the two in one, up to equality of values, and has the same rows in the same order
(`Frame.groupByTwice_spec`).  One of the two succeeds exactly if the other does.

## Strategy

Which rows stand together is a matter of lists, and settled for them (`perm_flattened`).

What the two runs do to the rows comes from `Tracked.Invariant.meets_groupBy` and
`Tracked.Invariant.meets_mapGroups`.  They need the fields at the keys to be steady and the loaders
to be faithful, and without either the statement fails (`Frame.exists_leaf_without_group`): the two
runs read the fields in another order, and the one that goes through the rows twice releases them
between.
-/

namespace Logbook

/-! ## Splitting a frame once -/

theorem Grouping.parts_split (keys : List String) (groups : List (List Value × Grouping)) :
    (split keys groups).parts = groups.flatMap fun group =>
      group.2.parts.map fun part => ((keys, group.1) :: part.1, part.2) := by
  show partsOfGroups keys groups = _
  induction groups with
  | nil => rfl
  | cons group groups ih => rw [partsOfGroups, ih, List.flatMap_cons]

theorem Tracked.parts_splitOf (disk : Disk) (start : Shelf) (keys : List String)
    (items : List Tracked) :
    (splitOf disk start keys items).parts =
      (groupWith (tuple disk start keys) items).map fun group =>
        ([(keys, group.1)], frameOf group.2) := by
  rw [splitOf, Grouping.parts_split, List.flatMap_map]
  exact List.map_eq_flatMap.symm

namespace Tracked

/-- Each group, split by some keys. -/
def leavesOf (disk : Disk) (start : Shelf) (keys : List String)
    (groups : List (List Value × List Tracked)) :
    List ((List Value × List Value) × List Tracked) :=
  groups.flatMap fun group =>
    (groupWith (tuple disk start keys) group.2).map fun inner => ((group.1, inner.1), inner.2)

theorem parts_leavesOf (disk : Disk) (start : Shelf) (first second : List String)
    (groups : List (List Value × List Tracked)) :
    (Grouping.split first
        (groups.map fun group => (group.1, splitOf disk start second group.2))).parts =
      (leavesOf disk start second groups).map fun leaf =>
        ([(first, leaf.1.1), (second, leaf.1.2)], frameOf leaf.2) := by
  rw [Grouping.parts_split, List.flatMap_map, leavesOf, List.map_flatMap]
  apply congrArg (List.flatMap · groups)
  funext group
  rw [parts_splitOf, List.map_map, List.map_map]
  rfl

theorem sources_leavesOf (disk : Disk) (start : Shelf) (keys : List String)
    (groups : List (List Value × List Tracked)) :
    ((groups.map sourcesOf).flatMap fun group =>
        (groupWith (Row.tupleAt disk start keys) group.2).map fun inner =>
          ((group.1, inner.1), inner.2)) =
      (leavesOf disk start keys groups).map fun leaf => (leaf.1, leaf.2.map Tracked.source) := by
  rw [List.flatMap_map, leavesOf, List.map_flatMap]
  apply congrArg (List.flatMap · groups)
  funext group
  rw [sourcesOf, groupWith_map, List.map_map, List.map_map]
  rfl

section Groups

variable {disk : Disk} {start now : Shelf} {items : List Tracked} {read keys : List String}

/-- Items are followed just as well group by group. -/
theorem Invariant.groups (h : Invariant disk start now items) (tuple : Tracked → List Value) :
    Invariant disk start now ((groupWith tuple items).flatMap Prod.snd ++ []) := by
  rw [List.append_nil]
  exact h.perm (groupWith_perm tuple items)

/-- The items of each group are ready to be asked for more keys. -/
theorem ready_of_mem_groupWith {tuple : Tracked → List Value}
    (hrecalls : ∀ item ∈ items, item.Recalls disk start read)
    (hsteady : ∀ row ∈ items.map Tracked.source, ∀ key ∈ keys, row.Steady start key) :
    ∀ group ∈ groupWith tuple items, ∀ item ∈ group.2, item.Ready disk start read keys := by
  intro group hgroup item hitem
  have hmem := mem_of_mem_group hgroup item hitem
  exact ⟨hrecalls item hmem, hsteady item.source (List.mem_map_of_mem hmem)⟩

end Groups

end Tracked

namespace Frame

open Reading Tracked

variable {disk : Disk} {before after : Shelf} {frame : Frame} {keys first second : List String}

theorem Owned.meets_groupBy (howned : frame.Owned before) (hfaithful : before.Faithful disk)
    (hsteady : ∀ row ∈ frame.rows, ∀ key ∈ keys, row.Steady before key) :
    Meets disk before (frame.groupBy keys) (∀ row ∈ frame.rows, row.GivesAll disk before keys)
      fun grouping after => ∃ moved : List Tracked, moved.map Tracked.source = frame.rows ∧
        (∀ item ∈ moved, item.Recalls disk before keys) ∧
        grouping = splitOf disk before keys moved ∧ Invariant disk before after moved := by
  obtain ⟨items, hframe, hsources, hready, hinvariant⟩ := howned.exists_items hsteady
  have hmeets := hinvariant.meets_groupBy hfaithful hready
  rw [hframe, hsources] at hmeets
  apply hmeets.imp Iff.rfl
  rintro _ after ⟨moved, hmoved, hrecalls, rfl, hafter⟩
  rw [List.append_nil] at hrecalls hafter
  exact ⟨moved, hmoved, hrecalls, rfl, hafter⟩

/-- The rows of some items, and the rows that the items stand for. -/
theorem splitTo_frameOf {items : List Tracked}
    (hsound : ∀ item ∈ items, item.Sound disk before after)
    (hrecalls : ∀ item ∈ items, item.Recalls disk before keys) :
    List.Forall₂ (Row.SplitTo disk before after keys) (items.map Tracked.source)
      (frameOf items).rows := by
  rw [frameOf, List.forall₂_map_left_iff, List.forall₂_map_right_iff, List.forall₂_same]
  intro item hitem
  exact (hsound item hitem).splitTo (hrecalls item hitem)

/-- **What one split gives**: a part for each group of rows. -/
theorem Owned.meets_parts (howned : frame.Owned before) (hfaithful : before.Faithful disk)
    (hsteady : ∀ row ∈ frame.rows, ∀ key ∈ keys, row.Steady before key) :
    Meets disk before (frame.groupBy keys) (∀ row ∈ frame.rows, row.GivesAll disk before keys)
      fun grouping after => List.Forall₂
        (fun group part => part.1 = [(keys, group.1)] ∧
          List.Forall₂ (Row.SplitTo disk before after keys) group.2 part.2.rows)
        (groupWith (Row.tupleAt disk before keys) frame.rows) grouping.parts := by
  apply (howned.meets_groupBy hfaithful hsteady).imp Iff.rfl
  rintro _ after ⟨moved, hsources, hrecalls, rfl, hafter⟩
  rw [parts_splitOf, ← hsources, groupWith_map, List.forall₂_map_left_iff,
    List.forall₂_map_right_iff, List.forall₂_same]
  intro group hgroup
  have hmem := mem_of_mem_group hgroup
  refine ⟨rfl, splitTo_frameOf ?_ ?_⟩
  · exact fun item hitem => hafter.sound item (hmem item hitem)
  · exact fun item hitem => hrecalls item (hmem item hitem)

/-! ## Splitting it twice -/

/-- Splits a frame by some keys and its groups by others. -/
def groupByTwice (frame : Frame) (first second : List String) : Reading Grouping := do
  (← frame.groupBy first).groupBy second

/-- **What a split of a split gives**: a part for each group of a group of rows. -/
theorem Owned.meets_partsOfTwice (howned : frame.Owned before) (hfaithful : before.Faithful disk)
    (hsteady : ∀ row ∈ frame.rows, ∀ key ∈ first ++ second, row.Steady before key) :
    Meets disk before (frame.groupByTwice first second)
      ((∀ row ∈ frame.rows, row.GivesAll disk before first) ∧
        ∀ row ∈ frame.rows, row.GivesAll disk before second)
      fun grouping after => List.Forall₂
        (fun leaf part => part.1 = [(first, leaf.1.1), (second, leaf.1.2)] ∧
          List.Forall₂ (Row.SplitTo disk before after (first ++ second)) leaf.2 part.2.rows)
        (groupTwice (Row.tupleAt disk before first) (Row.tupleAt disk before second) frame.rows)
        grouping.parts := by
  have hfirst := howned.meets_groupBy hfaithful fun row hrow key hkey =>
    hsteady row hrow key (List.mem_append_left _ hkey)
  apply hfirst.bind
  rintro _ between ⟨moved, hsources, hrecalls, rfl, hbetween⟩
  let groups := groupWith (tuple disk before first) moved
  have hperm : (groups.flatMap Prod.snd).Perm moved := groupWith_perm _ moved
  have hgroups := hbetween.groups (tuple disk before first)
  have hready : ∀ group ∈ groups, ∀ item ∈ group.2, item.Ready disk before first second := by
    apply ready_of_mem_groupWith hrecalls
    rw [hsources]
    exact fun row hrow key hkey => hsteady row hrow key (List.mem_append_right _ hkey)
  have hcondition : (∀ row ∈ (groups.flatMap Prod.snd).map Tracked.source,
      row.GivesAll disk before second) ↔ ∀ row ∈ frame.rows, row.GivesAll disk before second := by
    rw [← hsources]
    exact forall_congr' fun row => imp_congr_left (hperm.map Tracked.source).mem_iff
  apply Meets.imp _ hcondition fun _ _ h => h
  apply (hgroups.meets_mapGroups hfaithful hready).bind_total
  rintro _ after ⟨split, hsplit, hread, rfl, hafter⟩
  refine ⟨_, after, rfl, ?_⟩
  have hleaves : groupTwice (Row.tupleAt disk before first) (Row.tupleAt disk before second)
      frame.rows = (leavesOf disk before second split).map fun leaf =>
        (leaf.1, leaf.2.map Tracked.source) := by
    rw [← sources_leavesOf, hsplit, groupTwice, ← hsources, groupWith_map]
    rfl
  rw [hleaves, parts_leavesOf, List.forall₂_map_left_iff, List.forall₂_map_right_iff,
    List.forall₂_same]
  intro leaf hleaf
  obtain ⟨group, hgroup, hinner⟩ := List.mem_flatMap.mp hleaf
  obtain ⟨inner, hmem, rfl⟩ := List.mem_map.mp hinner
  have hitems := mem_of_mem_group hmem
  refine ⟨rfl, splitTo_frameOf ?_ ?_⟩
  · intro item hitem
    apply hafter.sound
    exact List.mem_append_left _ (List.mem_flatMap.mpr ⟨group, hgroup, hitems item hitem⟩)
  · intro item hitem
    apply (hread group hgroup item (hitems item hitem)).congr_read
    intro key
    rw [List.mem_append, List.mem_append, or_comm]

/-- A part of a frame that is split by some keys and then by others, and one of the frame split by
all of them: both have the rows with one tuple, in their order. -/
inductive SamePart (disk : Disk) (before left right : Shelf) (frame : Frame)
    (first second : List String) : Address × Frame → Address × Frame → Prop
  | intro {outer inner tuple : List Value} {leaf group : Frame}
      (htuple : Value.sameItems (outer ++ inner) tuple = true)
      (hleaf : List.Forall₂ (Row.SplitTo disk before left (first ++ second))
        (withTuple (Row.tupleAt disk before (first ++ second)) tuple frame.rows) leaf.rows)
      (hgroup : List.Forall₂ (Row.SplitTo disk before right (first ++ second))
        (withTuple (Row.tupleAt disk before (first ++ second)) tuple frame.rows) group.rows) :
      SamePart disk before left right frame first second
        ([(first, outer), (second, inner)], leaf) ([(first ++ second, tuple)], group)

theorem distinctParts_of_groupBy {grouping : Grouping}
    (hrun : frame.groupBy keys disk before = (.ok grouping, after)) :
    Grouping.DistinctParts grouping.parts := by
  obtain ⟨groups, rfl, hlevel, hregular, -⟩ := level_of_groupBy hrun
  apply Grouping.distinctParts_partsOfGroups keys hlevel.distinct
  exact fun group hgroup => (hregular group hgroup).distinctParts

theorem Owned.exists_matched {nested flat : Grouping} {left right : Shelf}
    (howned : frame.Owned before) (hfaithful : before.Faithful disk)
    (hsteady : ∀ row ∈ frame.rows, ∀ key ∈ first ++ second, row.Steady before key)
    (hnested : frame.groupByTwice first second disk before = (.ok nested, left))
    (hflat : frame.groupBy (first ++ second) disk before = (.ok flat, right)) :
    ∃ matched : List (Address × Frame), matched.Perm flat.parts ∧
      List.Forall₂ (SamePart disk before left right frame first second) nested.parts matched := by
  have hleaves := (howned.meets_partsOfTwice hfaithful hsteady).of_ok hnested
  have hgroups := (howned.meets_parts hfaithful hsteady).of_ok hflat
  have hlength : ∀ row ∈ frame.rows, (Row.tupleAt disk before first row).length = first.length :=
    fun row _ => row.length_tupleAt disk before first
  have hboth : Row.tupleAt disk before (first ++ second) =
      bothTuples (Row.tupleAt disk before first) (Row.tupleAt disk before second) := by
    funext row
    exact row.tupleAt_append disk before first second
  rw [hboth] at hgroups
  obtain ⟨matched, hmatched, hperm⟩ :=
    List.perm_comp_forall₂ (perm_flattened hlength) hgroups
  refine ⟨matched, hperm, ?_⟩
  have hlabelled := (List.forall₂_and_left _ _).mpr
    ⟨fun _ hleaf => hleaf, List.forall₂_map_left_iff.mp hmatched⟩
  refine forall₂_trans ?_ hleaves.flip hlabelled
  rintro ⟨_, part⟩ leaf ⟨_, group⟩ ⟨rfl, hleft⟩ ⟨hleaf, rfl, hright⟩
  obtain ⟨row, hrow⟩ := exists_leafAt hlength hleaf
  rw [hrow.members, ← hboth] at hleft
  rw [hrow.flattened_eq, hrow.members, ← hboth] at hright
  rw [hrow.flattened_eq, ← hboth]
  refine .intro ?_ hleft hright
  have houter := Value.length_eq_of_sameItems hrow.outer
  rw [hboth, bothTuples, Value.sameItems_append houter, hrow.outer, hrow.inner,
    Value.sameItems_refl]
  rfl

/-- **Splitting by some keys and then by others is splitting by all of them.** -/
theorem groupByTwice_spec (howned : frame.Owned before) (hfaithful : before.Faithful disk)
    (hsteady : ∀ row ∈ frame.rows, ∀ key ∈ first ++ second, row.Steady before key) :
    ((frame.groupByTwice first second disk before).1.isOk = true ↔
      (frame.groupBy (first ++ second) disk before).1.isOk = true) ∧
    ∀ nested left flat right,
      frame.groupByTwice first second disk before = (.ok nested, left) →
      frame.groupBy (first ++ second) disk before = (.ok flat, right) →
      Grouping.DistinctParts flat.parts ∧
        ∃ matched : List (Address × Frame), matched.Perm flat.parts ∧
          List.Forall₂ (SamePart disk before left right frame first second) nested.parts
            matched := by
  constructor
  · rw [(howned.meets_partsOfTwice hfaithful hsteady).isOk_iff,
      (howned.meets_parts hfaithful hsteady).isOk_iff]
    simp only [Row.givesAll_append, forall_and]
  · intro nested left flat right hnested hflat
    exact ⟨distinctParts_of_groupBy hflat,
      howned.exists_matched hfaithful hsteady hnested hflat⟩

/-- Three rows, one of them with a computed field, where an integer and a double are equal. -/
theorem exists_matched_of_three_rows :
    let plain := [
      Row.ofFields (some 1) [("config.lr", .int 1)],
      Row.ofFields (some 2) [("config.lr", .int 2), ("note", .str "note!")],
      Row.ofFields (some 3) [("config.lr", .float (.ofInt 1)), ("note", .str "other")]]
    let start := Shelf.addComputed (fun _ key => .ok (.str (key ++ "!"))) {}
    let frame : Frame := ⟨plain.modifyHead fun row => row.insert "note" (.computed start.1)⟩
    let disk := Disk.empty ⟨"/runs"⟩
    frame.Owned start.2 ∧ start.2.Faithful disk ∧
      (∀ row ∈ frame.rows, ∀ key ∈ ["config.lr", "note"], row.Steady start.2 key) ∧
      ∃ nested left flat right matched,
        frame.groupByTwice ["config.lr"] ["note"] disk start.2 = (.ok nested, left) ∧
        frame.groupBy ["config.lr", "note"] disk start.2 = (.ok flat, right) ∧
        matched.Perm flat.parts ∧
        List.Forall₂ (SamePart disk start.2 left right frame ["config.lr"] ["note"])
          nested.parts matched := by
  intro plain start frame disk
  have howned : frame.Owned start.2 := by
    refine Owned.insert_computed_head (owned_of_plain (fun row hrow key => ?_) {}) "note" _
    simp only [List.mem_cons, List.not_mem_nil, or_false] at hrow
    obtain rfl | rfl | rfl := hrow <;> exact Row.cellAt?_ofFields _ _ key
  have hfaithful : start.2.Faithful disk := (Shelf.faithful_empty disk).addComputed _
  have hsteady : ∀ row ∈ frame.rows, ∀ key ∈ ["config.lr", "note"], row.Steady start.2 key := by
    intro row _ key _ cell source state _ _ hstate calls others
    have hmem : state ∈ start.2.sources := Array.mem_of_getElem? hstate
    obtain rfl := Array.mem_singleton.mp hmem
    rfl
  have hflat : (frame.groupBy ["config.lr", "note"] disk start.2).1.isOk = true := by
    decide +kernel
  obtain ⟨hiff, hparts⟩ :=
    @groupByTwice_spec disk start.2 frame ["config.lr"] ["note"] howned hfaithful hsteady
  obtain ⟨flat, right, hflatRun⟩ := Reading.exists_of_isOk hflat
  obtain ⟨nested, left, hnestedRun⟩ := Reading.exists_of_isOk (hiff.mpr hflat)
  obtain ⟨-, matched, hperm, hmatched⟩ := hparts nested left flat right hnestedRun hflatRun
  exact ⟨howned, hfaithful, hsteady, nested, left, flat, right, matched, hnestedRun, hflatRun,
    hperm, hmatched⟩

/-- Rows with one computed field each, in cells of their own. -/
theorem owned_of_insert_computed {entries : List (Row × Nat)} (key : String)
    (hplain : ∀ entry ∈ entries, ∀ other, entry.1.cellAt? other = none)
    (hbound : ∀ entry ∈ entries, entry.2 < before.cells.size)
    (hdistinct : entries.Pairwise fun left right => left.2 ≠ right.2) :
    (⟨entries.map fun entry => entry.1.insert key (.computed entry.2)⟩ : Frame).Owned before := by
  have hcell : ∀ entry ∈ entries, ∀ other cell,
      (entry.1.insert key (.computed entry.2)).cellAt? other = some cell →
        other = key ∧ cell = entry.2 := by
    intro entry hentry other cell hcell
    rw [Row.cellAt?_insert, hplain entry hentry] at hcell
    by_cases hother : other = key
    · rw [if_pos hother] at hcell
      exact ⟨hother, (Option.some_inj.mp hcell).symm⟩
    · rw [if_neg hother] at hcell
      cases hcell
  constructor
  · intro row hrow
    obtain ⟨entry, hentry, rfl⟩ := List.mem_map.mp hrow
    constructor
    · intro other cell hother
      rw [(hcell entry hentry other cell hother).2]
      exact hbound entry hentry
    · intro one other cell hone hother
      rw [(hcell entry hentry one cell hone).1, (hcell entry hentry other cell hother).1]
  · apply List.pairwise_map.mpr
    apply hdistinct.imp_of_mem
    intro left right hleft hright hne one other cell hone hother
    apply hne
    rw [← (hcell left hleft one cell hone).2, ← (hcell right hright other cell hother).2]

/-- Whether one grouping has a part under values that no part of the other is under. -/
def hasOtherTuples (nested flat : Grouping) : Bool :=
  nested.parts.any fun leaf => flat.parts.all fun group =>
    !Value.sameItems (leaf.1.flatMap Prod.snd) (group.1.flatMap Prod.snd)

/-- A function that counts its calls, shared by three rows, puts a row under a pair of tuples that
no group has; and a loader that holds a log whose file is gone lets only the split by all keys
succeed. -/
theorem exists_leaf_without_group :
    let disk := Disk.empty ⟨"/runs"⟩
    let rate (value : Int64) : Row := Row.ofFields none [("config.lr", .int value)]
    let counting : Frame := ⟨[(rate 1, 0), (rate 2, 1), (rate 1, 2)].map fun entry =>
      entry.1.insert "note" (.computed entry.2)⟩
    let counter : Shelf :=
      { sources := #[⟨fun calls _ => .ok (.int (Int64.ofNat calls)), 0⟩]
        cells := #[⟨0, none⟩, ⟨0, none⟩, ⟨0, none⟩] }
    let logged : Frame := ⟨[{
      id := some 1
      slots := SortedMap.ofList [("train.loss", .metric 0), ("train.rate", .metric 0)]
      metrics := [0] }]⟩
    let stale : Shelf :=
      { metrics := #[{ MetricLoader.ofRun ⟨"/runs/1"⟩ "train" with
          loaded := some (SortedMap.ofList [("train.loss", .list []), ("train.rate", .list [])])
          complete := true }] }
    (counting.Owned counter ∧ counter.Faithful disk ∧ ∃ nested left flat right,
      counting.groupByTwice ["config.lr"] ["note"] disk counter = (.ok nested, left) ∧
      counting.groupBy ["config.lr", "note"] disk counter = (.ok flat, right) ∧
      ∃ leaf ∈ nested.parts, ∀ group ∈ flat.parts,
        Value.sameItems (leaf.1.flatMap Prod.snd) (group.1.flatMap Prod.snd) = false) ∧
    logged.Owned stale ∧
      (∀ row ∈ logged.rows, ∀ key ∈ ["train.loss", "train.rate"], row.Steady stale key) ∧
      (logged.groupByTwice ["train.loss"] ["train.rate"] disk stale).1.isOk = false ∧
      (logged.groupBy ["train.loss", "train.rate"] disk stale).1.isOk = true := by
  intro disk rate counting counter logged stale
  have hplain : ∀ row ∈ logged.rows, ∀ key, row.cellAt? key = none := by
    intro row hrow key
    cases List.mem_singleton.mp hrow
    apply Option.eq_none_iff_forall_ne_some.mpr
    intro cell hcell
    have hslot := SortedMap.mem_of_get?_ofList (Row.cellAt?_eq_some_iff.mp hcell)
    simp at hslot
  refine ⟨⟨?owned, ?faithful, ?leaf⟩, owned_of_plain hplain stale, ?steady, by decide +kernel,
    by decide +kernel⟩
  case owned =>
    apply owned_of_insert_computed
    · simp only [List.forall_mem_cons, List.not_mem_nil, false_implies, implies_true, and_true]
      exact ⟨Row.cellAt?_ofFields _ _, Row.cellAt?_ofFields _ _, Row.cellAt?_ofFields _ _⟩
    · simp [counter]
    · simp
  case faithful =>
    exact ⟨(Shelf.faithful_empty disk).metrics, (Shelf.faithful_empty disk).artifacts⟩
  case leaf =>
    obtain ⟨nested, left, hnested⟩ := Reading.exists_of_isOk
      (by decide +kernel : (counting.groupByTwice ["config.lr"] ["note"] disk counter).1.isOk)
    obtain ⟨flat, right, hflat⟩ := Reading.exists_of_isOk
      (by decide +kernel : (counting.groupBy ["config.lr", "note"] disk counter).1.isOk)
    have hcheck : ((counting.groupByTwice ["config.lr"] ["note"] disk counter).1.toOption.bind
        fun nested => (counting.groupBy ["config.lr", "note"] disk counter).1.toOption.map
          (hasOtherTuples nested)) = some true := by
      decide +kernel
    rw [hnested, hflat] at hcheck
    obtain ⟨leaf, hleaf, hgroups⟩ := List.any_eq_true.mp (Option.some_inj.mp hcheck)
    refine ⟨nested, left, flat, right, hnested, hflat, leaf, hleaf, fun group hgroup => ?_⟩
    simpa using List.all_eq_true.mp hgroups group hgroup
  case steady => exact fun row hrow key _ => Row.steady_of_plain (hplain row hrow key)

end Frame

end Logbook
