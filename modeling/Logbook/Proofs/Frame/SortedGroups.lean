import Logbook.Proofs.Frame.Nested
import Logbook.Proofs.Frame.Sort
import Logbook.Proofs.Frame.SteadyScan
import Logbook.Proofs.Frame.Traversal

/-!
# Sorting and splitting

A frame that is sorted and then split has the parts of a frame that is split and whose groups are
then sorted, in another order: two parts under equal tuples have the same rows in the same order
(`Frame.sortThenGroup_spec`).

## Strategy

Again this is first a matter of lists.  A group has all items with one tuple, so their order
decides only the order of the groups, the order in each of them, and which of equal tuples stands
for it (`exists_matched_groups`).  As sorting is stable, the rows with one tuple stand among all
rows in order as they stand when they alone are put in order (`Frame.withTuple_ordered`).

What the runs do to the rows comes from `Tracked.Invariant.sort`, for the frame or for one group
beside all others (`Tracked.Invariant.sortGroups`).  As for splitting a frame twice, fields have
to be steady and loaders faithful: the two runs read the fields of the rows in another order, and
release the loaders after other fields (`Frame.exists_other_rows_of_sorted`).
-/

namespace Logbook

/-! ## Groups of items in another order -/

/-- Two lists with a relation that gives every item of each one item of the other. -/
theorem exists_perm_forall₂ {α β : Type} [Nonempty β] {R : α → β → Prop} {left : List α}
    {right : List β}
    (hto : ∀ item ∈ left, ∃ found ∈ right, R item found)
    (hfrom : ∀ found ∈ right, ∃ item ∈ left, R item found)
    (hleft : left.Pairwise fun first second => ∀ found, R first found → ¬R second found)
    (hright : right.Pairwise fun first second => ∀ item, R item first → ¬R item second) :
    ∃ matched : List β, matched.Perm right ∧ List.Forall₂ R left matched := by
  choose! partner hmem hrelated using hto
  -- Nothing else in `right` is related to the item, so whoever is found from there is its partner.
  have hone : ∀ item ∈ left, ∀ found ∈ right, R item found → partner item = found := by
    intro item hitem found hfound hrelation
    by_contra hne
    have hsymm : Std.Symm fun first second : β => ∀ item, R item first → ¬R item second :=
      ⟨fun first second h item hsecond hfirst => h item hfirst hsecond⟩
    exact hright.forall (hmem item hitem) hfound hne item (hrelated item hitem) hrelation
  refine ⟨left.map partner, ?_, ?_⟩
  · have hnodup : (left.map partner).Nodup := by
      apply List.pairwise_map.mpr
      apply hleft.imp_of_mem
      intro first second hfirst hsecond hdiffer hsame
      exact hdiffer _ (hrelated first hfirst) (hsame ▸ hrelated second hsecond)
    have hnodupRight : right.Nodup := by
      apply hright.imp_of_mem
      rintro first _ hfirst - hdiffer rfl
      obtain ⟨item, -, hrelation⟩ := hfrom first hfirst
      exact hdiffer item hrelation hrelation
    apply (List.perm_ext_iff_of_nodup hnodup hnodupRight).mpr
    intro found
    constructor
    · intro hfound
      obtain ⟨item, hitem, rfl⟩ := List.mem_map.mp hfound
      exact hmem item hitem
    · intro hfound
      obtain ⟨item, hitem, hrelation⟩ := hfrom found hfound
      exact List.mem_map.mpr ⟨item, hitem, hone item hitem found hfound hrelation⟩
  · rw [List.forall₂_map_right_iff, List.forall₂_same]
    exact hrelated

section Groups

variable {α : Type} {tuple : α → List Value} {left right : List α}

/-- A group of some items, and the group with an equal tuple when they stand in another order. -/
structure SameGroup (tuple : α → List Value) (left right : List α)
    (group other : List Value × List α) : Prop where
  alike : Value.sameItems group.1 other.1 = true
  members : group.2 = withTuple tuple group.1 left
  others : other.2 = withTuple tuple group.1 right

theorem SameGroup.symm {group other : List Value × List α}
    (h : SameGroup tuple left right group other) : SameGroup tuple right left other group where
  alike := Value.sameItems_symm h.alike
  members := h.others.trans (withTuple_congr h.alike tuple right)
  others := h.members.trans (withTuple_congr h.alike tuple left)

theorem exists_sameGroup_of_perm (hperm : left.Perm right) {group : List Value × List α}
    (hgroup : group ∈ groupWith tuple left) :
    ∃ other ∈ groupWith tuple right, SameGroup tuple left right group other := by
  obtain ⟨hmembers, hhead⟩ := mem_groupWith_iff.mp hgroup
  obtain ⟨item, hitem, htuple⟩ := Option.map_eq_some_iff.mp hhead
  have hmem : item ∈ right :=
    hperm.subset (mem_of_mem_group hgroup item (List.mem_of_head? hitem))
  obtain ⟨wanted, hother⟩ := exists_mem_groupWith tuple hmem
  rw [htuple] at hother
  refine ⟨_, hother, ?_, hmembers, rfl⟩
  have hsame : withTuple tuple group.1 right = withTuple tuple wanted right :=
    (mem_groupWith_iff.mp hother).1
  have hwithin : item ∈ withTuple tuple group.1 right :=
    List.mem_filter.mpr ⟨hmem, htuple ▸ Value.sameItems_refl _⟩
  rw [hsame] at hwithin
  rw [← htuple]
  exact Value.sameItems_symm (List.mem_filter.mp hwithin).2

/-- **The order of the items decides the order of the groups**, the order in each of them, and which
of equal tuples stands for them. -/
theorem exists_matched_groups (tuple : α → List Value) (hperm : left.Perm right) :
    ∃ matched : List (List Value × List α), matched.Perm (groupWith tuple right) ∧
      List.Forall₂ (SameGroup tuple left right) (groupWith tuple left) matched := by
  apply exists_perm_forall₂
  · exact fun group hgroup => exists_sameGroup_of_perm hperm hgroup
  · intro other hother
    obtain ⟨group, hgroup, hsame⟩ := exists_sameGroup_of_perm hperm.symm hother
    exact ⟨group, hgroup, hsame.symm⟩
  · apply (distinct_groupWith tuple left).imp
    intro first second hdiffer other hfirst hsecond
    have hsame := Value.sameItems_trans hfirst.alike hsecond.symm.alike
    exact Bool.false_ne_true (hdiffer.symm.trans hsame)
  · apply (distinct_groupWith tuple right).imp
    intro first second hdiffer group hfirst hsecond
    have hsame := Value.sameItems_trans hfirst.symm.alike hsecond.alike
    exact Bool.false_ne_true (hdiffer.symm.trans hsame)

end Groups

/-! ## Rows in order -/

namespace Frame

/-- Whether a row may stand before another one, by what they give at some keys. -/
def precedes (disk : Disk) (shelf : Shelf) (keys : List String) (ascending : Bool)
    (first second : Row) : Bool :=
  mayPrecede ascending (first.tupleAt disk shelf keys) (second.tupleAt disk shelf keys)

/-- Rows in the order of what they give at some keys. -/
def ordered (disk : Disk) (shelf : Shelf) (keys : List String) (ascending : Bool)
    (rows : List Row) : List Row :=
  rows.mergeSort (precedes disk shelf keys ascending)

theorem ordered_perm (disk : Disk) (shelf : Shelf) (keys : List String) (ascending : Bool)
    (rows : List Row) : (ordered disk shelf keys ascending rows).Perm rows :=
  List.mergeSort_perm _ _

/-- Rows whose values are in a total order: no not-a-number among them is negative. -/
def Ordinary (disk : Disk) (shelf : Shelf) (keys : List String) (rows : List Row) : Prop :=
  ∀ row ∈ rows, ∀ value ∈ row.tupleAt disk shelf keys, value.NaNSign false

variable {disk : Disk} {shelf : Shelf} {keys order : List String} {ascending : Bool}
  {rows : List Row}

theorem ordinary_of_tuples (tuples : List (List Value))
    (htuples : rows.map (Row.tupleAt disk shelf keys) = tuples)
    (hsign : ∀ tuple ∈ tuples, ∀ value ∈ tuple, value.NaNSign false) :
    Ordinary disk shelf keys rows :=
  fun _ hrow => hsign _ (htuples ▸ List.mem_map_of_mem hrow)

/-- Rows next to what they give at some keys. -/
def entriesAt (disk : Disk) (shelf : Shelf) (keys : List String) (rows : List Row) :
    List (List Value × Row) :=
  rows.map fun row => (row.tupleAt disk shelf keys, row)

theorem sortsTo_ordered (hrows : Ordinary disk shelf order rows) :
    SortsTo ascending (entriesAt disk shelf order rows)
      (entriesAt disk shelf order (ordered disk shelf order ascending rows)) := by
  have hsign : ∀ entry ∈ entriesAt disk shelf order rows, Value.NaNSignOfItems false entry.1 :=
    List.forall_mem_map.mpr fun row hrow => Value.nanSignOfItems_iff.mpr (hrows row hrow)
  have hentries : entriesAt disk shelf order (ordered disk shelf order ascending rows) =
      (entriesAt disk shelf order rows).mergeSort fun left right =>
        mayPrecede ascending left.1 right.1 :=
    List.map_mergeSort fun _ _ _ _ => rfl
  rw [hentries]
  exact sortsTo_mergeSort ascending hsign

/-- **Rows with one tuple stand in their order among all rows in order.** -/
theorem withTuple_ordered (hrows : Ordinary disk shelf order rows) (tuple : Row → List Value)
    (wanted : List Value) :
    withTuple tuple wanted (ordered disk shelf order ascending rows) =
      ordered disk shelf order ascending (withTuple tuple wanted rows) := by
  have hsign : ∀ row ∈ rows, Value.NaNSignOfItems false (row.tupleAt disk shelf order) :=
    fun row hrow => Value.nanSignOfItems_iff.mpr (hrows row hrow)
  exact filter_mergeSort_comm hsign (fun _ _ _ => mayPrecede_trans)
    (fun _ _ _ _ => mayPrecede_total _ _ _) _

end Frame

/-! ## Following the rows -/

namespace Tracked

open Reading

variable {disk : Disk} {start now after : Shelf} {items others : List Tracked}
  {read order : List String} {ascending : Bool} {result : Frame}

/-- **Sorting rows whose fields are steady** puts them in the order of what they gave at the
start. -/
theorem Invariant.sort (h : Invariant disk start now (items ++ others))
    (hfaithful : start.Faithful disk) (hitems : ∀ item ∈ items, item.Ready disk start read order)
    (hrun : (frameOf items).sort order ascending disk now = (.ok result, after)) :
    ∃ moved : List Tracked, result = frameOf moved ∧
      moved.map Tracked.source =
        Frame.ordered disk start order ascending (items.map Tracked.source) ∧
      (∀ item ∈ moved, item.Recalls disk start (order ++ read)) ∧
      Invariant disk start after (moved ++ others) := by
  obtain ⟨⟨⟩, checked, hcheck, hrest⟩ := bind_eq_ok.mp hrun
  obtain rfl : now = checked := congrArg Prod.snd hcheck
  obtain ⟨tuples, between, hscan, hrest⟩ := bind_eq_ok.mp hrest
  obtain ⟨copies, last, hcopies, hpure⟩ := bind_eq_ok.mp hrest
  cases hpure
  obtain ⟨scanned, hsources, hrows, hrecalls, rfl, hbetween⟩ :=
    (h.meets_scan hfaithful hitems).of_ok hscan
  -- The rows are sorted next to their tuples, and the items go along.
  let le (first second : Tracked) : Bool :=
    Frame.precedes disk start order ascending first.source second.source
  have hpairs : (((scanned.map (tuple disk start order)).zip (frameOf items).rows).mergeSort
      fun left right => Frame.mayPrecede ascending left.1 right.1).map Prod.snd =
        (scanned.mergeSort le).map Tracked.row := by
    have hzip : (scanned.map (tuple disk start order)).zip (frameOf items).rows =
        scanned.map fun item => (tuple disk start order item, item.row) := by
      rw [frameOf, ← hrows, List.zip_map']
    have hsorted := List.map_mergeSort (r := le) (l := scanned)
      (f := fun item => (tuple disk start order item, item.row))
      (s := fun left right => Frame.mayPrecede ascending left.1 right.1) fun _ _ _ _ => rfl
    rw [hzip, ← hsorted, List.map_map]
    rfl
  have hcopies : Row.copies ((scanned.mergeSort le).map Tracked.row) disk between =
      (.ok copies, after) := hpairs ▸ hcopies
  have hperm := List.mergeSort_perm scanned le
  have hsorted := hbetween.perm (hperm.append_right others)
  obtain ⟨moves, hmoves, rfl, hafter⟩ := hsorted.copied hcopies
  refine ⟨moves.map fun move => { move.1 with row := move.2 }, ?_, ?_, ?_, hafter⟩
  · rw [frameOf, List.map_map]
    rfl
  · have hrest : (moves.map fun move => move.1.source) =
        (scanned.mergeSort le).map Tracked.source := by
      rw [← hmoves, List.map_map]
      rfl
    rw [List.map_map, ← hsources]
    exact hrest.trans (List.map_mergeSort fun _ _ _ _ => rfl)
  · refine List.forall_mem_map.mpr fun move hmove => ?_
    have hmem : move.1 ∈ scanned.mergeSort le := hmoves ▸ List.mem_map_of_mem hmove
    exact (hrecalls move.1 (hperm.mem_iff.mp hmem)).congr rfl rfl

/-- What sorting makes of some items. -/
structure SortedInto (disk : Disk) (start : Shelf) (read order : List String) (ascending : Bool)
    (items moved : List Tracked) : Prop where
  sources : moved.map Tracked.source =
    Frame.ordered disk start order ascending (items.map Tracked.source)
  recalls (item : Tracked) (hitem : item ∈ moved) : item.Recalls disk start (order ++ read)

/-- **Sorting the groups of a grouping** sorts each of them beside all others. -/
theorem Invariant.sortGroups {keys : List String} {groups : List (List Value × List Tracked)}
    {grouping made : Grouping}
    (h : Invariant disk start now ((groups.flatMap Prod.snd) ++ others))
    (hfaithful : start.Faithful disk)
    (hready : ∀ group ∈ groups, ∀ item ∈ group.2, item.Ready disk start read order)
    (hparts : grouping.parts = groups.map fun group => ([(keys, group.1)], frameOf group.2))
    (hrun : grouping.sort order ascending disk now = (.ok made, after)) :
    ∃ moves : List ((List Value × List Tracked) × List Tracked), moves.map Prod.fst = groups ∧
      (∀ move ∈ moves, SortedInto disk start read order ascending move.1.2 move.2) ∧
      made.parts = moves.map (fun move => ([(keys, move.1.1)], frameOf move.2)) ∧
      Invariant disk start after ((moves.flatMap Prod.snd) ++ others) := by
  -- A part takes its tuple along, because the address of what is made of it needs the tuple.
  let parts : List (Address × List Value × List Tracked) :=
    groups.map fun group => ([(keys, group.1)], group)
  have hstep : ∀ part ∈ parts, ∀ (others : List Tracked) (now after : Shelf) (made : Grouping),
      Invariant disk start now (part.2.2 ++ others) →
      (do return .whole (← (frameOf part.2.2).sort order ascending) : Reading Grouping) disk now =
        (.ok made, after) →
      ∃ moved, (made = .whole (frameOf moved) ∧
          SortedInto disk start read order ascending part.2.2 moved) ∧
        Invariant disk start after (moved ++ others) := by
    intro part hpart others now after made hnow hmade
    obtain ⟨group, hgroup, rfl⟩ := List.mem_map.mp hpart
    obtain ⟨sorted, last, hsorted, hpure⟩ := bind_eq_ok.mp hmade
    cases hpure
    obtain ⟨moved, rfl, hsources, hrecalls, hafter⟩ :=
      hnow.sort hfaithful (hready group hgroup) hsorted
    exact ⟨moved, ⟨rfl, hsources, hrecalls⟩, hafter⟩
  have hframes : grouping.parts = parts.map fun part => (part.1, frameOf part.2.2) := by
    rw [hparts, List.map_map]
    rfl
  have hhere : (parts.flatMap fun part => part.2.2) = groups.flatMap Prod.snd := by
    rw [List.flatMap_map]
  obtain ⟨steps, hsteps, hsorted, hmade, hafter⟩ :=
    Invariant.mapParts (fun group => frameOf group.2) Prod.snd id
      (fun group made moved => made = .whole (frameOf moved) ∧
        SortedInto disk start read order ascending group.2 moved)
      hstep hframes (hhere ▸ h) hrun
  refine ⟨steps.map fun step => (step.1.2, step.2.2), ?_, ?_, ?_, ?_⟩
  · have hgroups := congrArg (List.map Prod.snd) hsteps
    rw [List.map_map, List.map_map] at hgroups
    rw [List.map_map]
    exact hgroups.trans (List.map_id groups)
  · exact List.forall_mem_map.mpr fun step hstep => (hsorted step hstep).2
  · rw [hmade, Grouping.flatMap_parts_of_whole fun step hstep => (hsorted step hstep).1,
      List.map_map]
    apply List.map_congr_left
    intro step hstep
    have haddress : step.1.1 = [(keys, step.1.2.1)] := by
      have hpart : step.1 ∈ parts := hsteps ▸ List.mem_map_of_mem hstep
      obtain ⟨group, -, hgroup⟩ := List.mem_map.mp hpart
      rw [← hgroup]
    exact congrArg (·, frameOf step.2.2) haddress
  · rw [List.flatMap_map]
    exact hafter

end Tracked

/-! ## Sorting before and after -/

namespace Frame

open Reading Tracked

variable {disk : Disk} {before after : Shelf} {frame : Frame} {keys order : List String}
  {ascending : Bool} {grouping : Grouping}

/-- Sorts a frame by some keys and then splits it by others. -/
def sortThenGroup (frame : Frame) (order keys : List String) (ascending : Bool) :
    Reading Grouping := do
  (← frame.sort order ascending).groupBy keys

/-- Splits a frame by some keys and then sorts the groups by others. -/
def groupThenSort (frame : Frame) (order keys : List String) (ascending : Bool) :
    Reading Grouping := do
  (← frame.groupBy keys).sort order ascending

/-- A part holds some rows, under a tuple. -/
structure HoldsRows (disk : Disk) (before after : Shelf) (read keys : List String)
    (tuple : List Value) (rows : List Row) (part : Address × Frame) : Prop where
  address : part.1 = [(keys, tuple)]
  rows : List.Forall₂ (Row.SplitTo disk before after read) rows part.2.rows

theorem holdsRows_of_items {tuple : List Value} {read : List String} {items : List Tracked}
    {rows : List Row} (hsources : items.map Tracked.source = rows)
    (hsound : ∀ item ∈ items, item.Sound disk before after)
    (hrecalls : ∀ item ∈ items, item.Recalls disk before read) :
    HoldsRows disk before after read keys tuple rows ([(keys, tuple)], frameOf items) :=
  ⟨rfl, hsources ▸ splitTo_frameOf hsound hrecalls⟩

/-- **The parts of a sorted frame** are the groups of its rows in order. -/
theorem Owned.parts_of_sortThenGroup (howned : frame.Owned before)
    (hfaithful : before.Faithful disk)
    (hsteady : ∀ row ∈ frame.rows, ∀ key ∈ keys ++ order, row.Steady before key)
    (hrun : frame.sortThenGroup order keys ascending disk before = (.ok grouping, after)) :
    List.Forall₂ (fun group part =>
        HoldsRows disk before after (keys ++ order) keys group.1 group.2 part)
      (groupWith (Row.tupleAt disk before keys) (ordered disk before order ascending frame.rows))
      grouping.parts := by
  obtain ⟨sorted, between, hsort, hgroup⟩ := bind_eq_ok.mp hrun
  obtain ⟨items, hframe, hsources, hready, hinvariant⟩ := howned.exists_items
    fun row hrow key hkey => hsteady row hrow key (List.mem_append_right _ hkey)
  rw [← hframe] at hsort
  obtain ⟨moved, rfl, hmoved, hrecalls, hbetween⟩ := hinvariant.sort hfaithful hready hsort
  rw [hsources] at hmoved
  -- The copies remember what sorting has read, so that a key of both kinds is not read again.
  have hsplit : ∀ item ∈ moved, item.Ready disk before order keys := by
    intro item hitem
    refine ⟨List.append_nil order ▸ hrecalls item hitem, fun key hkey => ?_⟩
    have hmem : item.source ∈ ordered disk before order ascending frame.rows :=
      hmoved ▸ List.mem_map_of_mem hitem
    exact hsteady item.source ((ordered_perm _ _ _ _ _).mem_iff.mp hmem) key
      (List.mem_append_left _ hkey)
  obtain ⟨split, hsplitSources, hread, rfl, hafter⟩ :=
    (hbetween.meets_groupBy hfaithful hsplit).of_ok hgroup
  rw [parts_splitOf, ← hmoved, ← hsplitSources, groupWith_map, List.forall₂_map_left_iff,
    List.forall₂_map_right_iff, List.forall₂_same]
  intro group hmem
  have hitems := mem_of_mem_group hmem
  refine holdsRows_of_items rfl ?_ ?_
  · exact fun item hitem => hafter.sound item (List.mem_append_left _ (hitems item hitem))
  · exact fun item hitem => hread item (hitems item hitem)

/-- **The parts of a frame whose groups are sorted** are the groups of its rows, each in order. -/
theorem Owned.parts_of_groupThenSort (howned : frame.Owned before)
    (hfaithful : before.Faithful disk)
    (hsteady : ∀ row ∈ frame.rows, ∀ key ∈ keys ++ order, row.Steady before key)
    (hrun : frame.groupThenSort order keys ascending disk before = (.ok grouping, after)) :
    List.Forall₂ (fun group part => HoldsRows disk before after (keys ++ order) keys group.1
        (ordered disk before order ascending group.2) part)
      (groupWith (Row.tupleAt disk before keys) frame.rows) grouping.parts := by
  obtain ⟨split, between, hgroup, hsort⟩ := bind_eq_ok.mp hrun
  obtain ⟨moved, hsources, hrecalls, rfl, hbetween⟩ :=
    (howned.meets_groupBy hfaithful fun row hrow key hkey =>
      hsteady row hrow key (List.mem_append_left _ hkey)).of_ok hgroup
  have hready : ∀ group ∈ groupWith (tuple disk before keys) moved, ∀ item ∈ group.2,
      item.Ready disk before keys order := by
    apply ready_of_mem_groupWith hrecalls
    rw [hsources]
    exact fun row hrow key hkey => hsteady row hrow key (List.mem_append_right _ hkey)
  obtain ⟨moves, hmoves, hsorted, hparts, hafter⟩ :=
    (hbetween.groups _).sortGroups hfaithful hready (parts_splitOf disk before keys moved) hsort
  have hrows : groupWith (Row.tupleAt disk before keys) frame.rows =
      moves.map fun move => (move.1.1, move.1.2.map Tracked.source) := by
    rw [← hsources, groupWith_map]
    show (groupWith (tuple disk before keys) moved).map _ = _
    rw [← hmoves, List.map_map]
    rfl
  rw [hrows, hparts, List.forall₂_map_left_iff, List.forall₂_map_right_iff, List.forall₂_same]
  intro move hmove
  refine holdsRows_of_items (hsorted move hmove).sources (fun item hitem => hafter.sound item ?_)
    fun item hitem => ((hsorted move hmove).recalls item hitem).congr_read fun key => ?_
  · exact List.mem_append_left _ (List.mem_flatMap.mpr ⟨move, hmove, hitem⟩)
  · rw [List.mem_append, List.mem_append, or_comm]

theorem mergeSort_pair {α : Type} (le : α → α → Bool) (first second : α) :
    [first, second].mergeSort le =
      if le first second then [first, second] else [second, first] := by
  simp [List.mergeSort, List.merge]

/-- Two rows are swapped if the first may not stand before the second. -/
theorem sortThenGroup_pair {first second : Row} (left right : List Value) (between : Shelf)
    (hcheck : (⟨[first, second]⟩ : Frame).checkKeys order = .ok ())
    (hscan : (⟨[first, second]⟩ : Frame).scan (fun row => order.mapM row.cell) disk before =
      (.ok [left, right], between)) :
    (⟨[first, second]⟩ : Frame).sortThenGroup order keys ascending disk before =
      (do
        let copies ← Row.copies
          (if mayPrecede ascending left right then [first, second] else [second, first])
        (⟨copies⟩ : Frame).groupBy keys : Reading Grouping) disk between := by
  have hsort : (⟨[first, second]⟩ : Frame).sort order ascending disk before =
      (do
        return ⟨← Row.copies (([(left, first), (right, second)].mergeSort fun one other =>
          mayPrecede ascending one.1 other.1).map Prod.snd)⟩ : Reading Frame) disk between := by
    unfold sort
    rw [hcheck]
    exact bind_of_ok hscan
  have hsorted : (([(left, first), (right, second)].mergeSort fun one other =>
      mayPrecede ascending one.1 other.1).map Prod.snd) =
        if mayPrecede ascending left right then [first, second] else [second, first] := by
    rw [mergeSort_pair]
    split <;> rfl
  rw [hsorted] at hsort
  rw [sortThenGroup, bind_apply, hsort, ← bind_apply, bind_assoc]
  rfl

/-- A part of a frame that is sorted and split, and one of a frame that is split and whose groups
are sorted: both have the rows with one tuple, in order. -/
inductive SortedPart (disk : Disk) (before left right : Shelf) (frame : Frame)
    (order keys : List String) (ascending : Bool) : Address × Frame → Address × Frame → Prop
  | intro {first second : List Value} {members : List Row} {part other : Frame}
      (htuple : Value.sameItems first second = true)
      (hmembers : SortsTo ascending
        (entriesAt disk before order (withTuple (Row.tupleAt disk before keys) first frame.rows))
        (entriesAt disk before order members))
      (hpart : List.Forall₂ (Row.SplitTo disk before left (keys ++ order)) members part.rows)
      (hother : List.Forall₂ (Row.SplitTo disk before right (keys ++ order)) members
        other.rows) :
      SortedPart disk before left right frame order keys ascending
        ([(keys, first)], part) ([(keys, second)], other)

/-- **Sorting a frame and splitting it is splitting it and sorting the groups**, up to the order of
the groups and which of equal tuples stands for a group. -/
theorem sortThenGroup_spec {left right : Shelf} {sorted grouped : Grouping}
    (howned : frame.Owned before) (hfaithful : before.Faithful disk)
    (hsteady : ∀ row ∈ frame.rows, ∀ key ∈ keys ++ order, row.Steady before key)
    (hrows : Ordinary disk before order frame.rows)
    (hsorted : frame.sortThenGroup order keys ascending disk before = (.ok sorted, left))
    (hgrouped : frame.groupThenSort order keys ascending disk before = (.ok grouped, right)) :
    Grouping.DistinctParts sorted.parts ∧
      ∃ matched : List (Address × Frame), matched.Perm grouped.parts ∧
        List.Forall₂ (SortedPart disk before left right frame order keys ascending) sorted.parts
          matched := by
  have hleft := howned.parts_of_sortThenGroup hfaithful hsteady hsorted
  have hright := howned.parts_of_groupThenSort hfaithful hsteady hgrouped
  obtain ⟨groups, hgroups, hsame⟩ := exists_matched_groups (Row.tupleAt disk before keys)
    (ordered_perm disk before order ascending frame.rows)
  obtain ⟨matched, hmatched, hperm⟩ := List.perm_comp_forall₂ hgroups hright
  obtain ⟨result, between, -, hlast⟩ := bind_eq_ok.mp hsorted
  refine ⟨distinctParts_of_groupBy hlast, matched, hperm, ?_⟩
  have hothers := forall₂_trans
    (fun _ found _ hsame hholds => Exists.intro found (And.intro hsame hholds)) hsame hmatched
  refine forall₂_trans ?_ hleft.flip hothers
  rintro ⟨_, part⟩ group ⟨_, other⟩ ⟨rfl, hpart⟩ ⟨found, ⟨halike, hmembers, hfound⟩, rfl, hother⟩
  -- The rows with the tuple have been put in order before they were picked out, or after it.
  rw [hmembers] at hpart
  rw [hfound, ← withTuple_ordered hrows] at hother
  refine .intro halike ?_ hpart hother
  rw [withTuple_ordered hrows]
  exact sortsTo_ordered fun row hrow => hrows row (List.mem_of_mem_filter hrow)

/-- Two rows, one of them with a computed field, in an order that swaps the groups. -/
theorem sortThenGroup_of_two_rows :
    let computed : Row := (Row.ofFields (some 1) [("config.lr", .int 1)]).insert "config.seed"
      (.computed 0)
    let plain : Row := Row.ofFields (some 2) [("config.lr", .int 2), ("config.seed", .int 1)]
    let start := (Shelf.addComputed (fun _ _ => .ok (.int 2)) {}).2
    let frame : Frame := ⟨[computed, plain]⟩
    let disk := Disk.empty ⟨"/runs"⟩
    frame.Owned start ∧ start.Faithful disk ∧
      (∀ row ∈ frame.rows, ∀ key ∈ ["config.lr", "config.seed"], row.Steady start key) ∧
      Ordinary disk start ["config.seed"] frame.rows ∧
      ∃ sorted left grouped right matched,
        frame.sortThenGroup ["config.seed"] ["config.lr"] true disk start = (.ok sorted, left) ∧
        frame.groupThenSort ["config.seed"] ["config.lr"] true disk start =
          (.ok grouped, right) ∧
        matched.Perm grouped.parts ∧
        List.Forall₂ (SortedPart disk start left right frame ["config.seed"] ["config.lr"] true)
          sorted.parts matched := by
  intro computed plain start frame disk
  have howned : frame.Owned start := by
    refine Owned.insert_computed_head (owned_of_plain (fun row hrow key => ?_) {}) _ _
    simp only [List.mem_cons, List.not_mem_nil, or_false] at hrow
    obtain rfl | rfl := hrow <;> exact Row.cellAt?_ofFields _ _ key
  have hfaithful : start.Faithful disk := (Shelf.faithful_empty disk).addComputed _
  have hsteady : ∀ row ∈ frame.rows, ∀ key ∈ ["config.lr", "config.seed"],
      row.Steady start key := by
    intro row _ key _ cell source state _ _ hstate calls others
    obtain rfl := Array.mem_singleton.mp (Array.mem_of_getElem? hstate)
    rfl
  have hrows : Ordinary disk start ["config.seed"] frame.rows :=
    ordinary_of_tuples [[.int 2], [.int 1]] rfl (by simp [Value.NaNSign])
  let scan := frame.scan fun row => ["config.seed"].mapM row.cell
  have hpair : frame.sortThenGroup ["config.seed"] ["config.lr"] true disk start = _ :=
    sortThenGroup_pair [.int 2] [.int 1] (scan disk start).2 rfl rfl
  have hleft :
      (frame.sortThenGroup ["config.seed"] ["config.lr"] true disk start).1.isOk = true := by
    rw [hpair]
    decide +kernel
  have hright :
      (frame.groupThenSort ["config.seed"] ["config.lr"] true disk start).1.isOk = true := by
    decide +kernel
  obtain ⟨sorted, left, hsorted⟩ := Reading.exists_of_isOk hleft
  obtain ⟨grouped, right, hgrouped⟩ := Reading.exists_of_isOk hright
  obtain ⟨-, matched, hperm, hmatched⟩ :=
    sortThenGroup_spec howned hfaithful hsteady hrows hsorted hgrouped
  exact ⟨howned, hfaithful, hsteady, hrows, sorted, left, grouped, right, matched, hsorted,
    hgrouped, hperm, hmatched⟩

/-- Whether one grouping has a part that no part of the other is like, with equal values above it
and rows of the same runs. -/
def hasOtherRows (sorted grouped : Grouping) : Bool :=
  sorted.parts.any fun part => grouped.parts.all fun other =>
    !(Value.sameItems (part.1.flatMap Prod.snd) (other.1.flatMap Prod.snd) &&
      part.2.rows.map Row.id == other.2.rows.map Row.id)

theorem exists_groupings_of_seen
    (h : ((frame.sortThenGroup order keys ascending disk before).1.toOption.bind fun sorted =>
      (frame.groupThenSort order keys ascending disk before).1.toOption.map
        (hasOtherRows sorted)) = some true) :
    ∃ sorted left grouped right,
      frame.sortThenGroup order keys ascending disk before = (.ok sorted, left) ∧
      frame.groupThenSort order keys ascending disk before = (.ok grouped, right) ∧
      hasOtherRows sorted grouped = true := by
  obtain ⟨sorted, hsorted, hrest⟩ := Option.bind_eq_some_iff.mp h
  obtain ⟨grouped, hgrouped, hother⟩ := Option.map_eq_some_iff.mp hrest
  exact ⟨sorted, _, grouped, _, Prod.ext (Outcome.eq_ok_of_toOption hsorted) rfl,
    Prod.ext (Outcome.eq_ok_of_toOption hgrouped) rfl, hother⟩

/-- A function that counts its calls, shared by two rows, puts either row under one; and a loader
that holds a log whose file has changed has one series from the file and the other from before. -/
theorem exists_other_rows_of_sorted :
    let rate (id : RunId) (value : Int64) : Row :=
      Row.ofFields (some id) [("config.lr", .int value)]
    let counting : Frame := ⟨[(rate 1 2, 0), (rate 2 1, 1)].map fun entry =>
      entry.1.insert "note" (.computed entry.2)⟩
    let counter : Shelf :=
      { sources := #[⟨fun calls _ => .ok (.int (Int64.ofNat calls)), 0⟩]
        cells := #[⟨0, none⟩, ⟨0, none⟩] }
    let logged : Frame := ⟨[{
      id := some 1
      slots := SortedMap.ofList [("train.loss", .metric 0), ("train.rate", .metric 0)]
      metrics := [0] }]⟩
    let stale : Shelf :=
      { metrics := #[{ MetricLoader.ofRun ⟨"/runs/1"⟩ "train" with
          loaded := some (SortedMap.ofList [("train.loss", .list [.int 1]),
            ("train.rate", .list [.int 2])])
          complete := true }] }
    let empty := Disk.empty ⟨"/runs"⟩
    let disk : Disk := ⟨⟨"/runs"⟩, .folder [("1", .folder [("metrics", .folder [
      ("train.json", .file (.text "\x7b\"loss\": 3, \"rate\": 4\x7d\n"))])])]⟩
    (counting.Owned counter ∧ counter.Faithful empty ∧
      Ordinary empty counter ["config.lr"] counting.rows ∧ ∃ sorted left grouped right,
        counting.sortThenGroup ["config.lr"] ["note"] true empty counter = (.ok sorted, left) ∧
        counting.groupThenSort ["config.lr"] ["note"] true empty counter = (.ok grouped, right) ∧
        hasOtherRows sorted grouped = true) ∧
    logged.Owned stale ∧
      (∀ row ∈ logged.rows, ∀ key ∈ ["train.rate", "train.loss"], row.Steady stale key) ∧
      Ordinary disk stale ["train.loss"] logged.rows ∧ ∃ sorted left grouped right,
        logged.sortThenGroup ["train.loss"] ["train.rate"] true disk stale = (.ok sorted, left) ∧
        logged.groupThenSort ["train.loss"] ["train.rate"] true disk stale = (.ok grouped, right) ∧
        hasOtherRows sorted grouped = true := by
  intro rate counting counter logged stale empty disk
  have hplain : ∀ row ∈ logged.rows, ∀ key, row.cellAt? key = none := by
    intro row hrow key
    cases List.mem_singleton.mp hrow
    apply Option.eq_none_iff_forall_ne_some.mpr
    intro cell hcell
    have hslot := SortedMap.mem_of_get?_ofList (Row.cellAt?_eq_some_iff.mp hcell)
    simp at hslot
  have hpair : counting.sortThenGroup ["config.lr"] ["note"] true empty counter = _ :=
    sortThenGroup_pair [.int 2] [.int 1] counter rfl rfl
  refine ⟨⟨?owned, ?faithful, ?counts, exists_groupings_of_seen ?seen⟩,
    owned_of_plain hplain stale, ?steady, ?series, exists_groupings_of_seen (by decide +kernel)⟩
  case owned =>
    apply owned_of_insert_computed
    · simp only [List.forall_mem_cons, List.not_mem_nil, false_implies, implies_true, and_true]
      exact ⟨Row.cellAt?_ofFields _ _, Row.cellAt?_ofFields _ _⟩
    · simp [counter]
    · simp
  case faithful =>
    exact ⟨(Shelf.faithful_empty empty).metrics, (Shelf.faithful_empty empty).artifacts⟩
  case counts =>
    exact ordinary_of_tuples [[.int 2], [.int 1]] rfl (by simp [Value.NaNSign])
  case seen =>
    rw [hpair]
    decide +kernel
  case steady => exact fun row hrow key _ => Row.steady_of_plain (hplain row hrow key)
  case series =>
    exact ordinary_of_tuples [[.list [.int 1]]] rfl
      (by simp [Value.NaNSign, Value.NaNSignOfItems])

end Frame

end Logbook
