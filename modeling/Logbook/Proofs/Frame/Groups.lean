import Logbook.Proofs.Frame.Regular
import Mathlib.Data.List.Nodup
import Mathlib.Data.List.Perm.Basic

/-!
# Groups of groups

Items that are put together by tuples, and then in each group by other tuples, are in the groups
that they are in by both tuples at once (`perm_flattened`).  The order of the groups differs, and
the tuple of a group of a group may differ from that of the group by both, though they are equal:
each is taken from an item, but from different ones.

## Strategy

A group holds all items whose tuple equals that of the first of them (`mem_groupWith_iff`).  So a
group of a group holds the items for which both tuples equal those of its first item
(`exists_leafAt`), and each item is in one of them (`exists_mem_groupTwice`).  As no two hold the
same items (`pairwise_groupTwice`), membership decides.
-/

namespace Logbook

/-! ## Groups of items -/

/-- Items put together by the tuples that belong to them. -/
def groupWith {α : Type} (tuple : α → List Value) (items : List α) :
    List (List Value × List α) :=
  groupByTuple (items.map fun item => (tuple item, item))

theorem groupByTuple_of_groupWith {α β : Type} (tuple : α → List Value) (change : α → β)
    (items : List α) :
    groupByTuple (items.map fun item => (tuple item, change item)) =
      (groupWith tuple items).map fun group => (group.1, group.2.map change) := by
  have hpairs := groupByTuple_map change (items.map fun item => (tuple item, item))
  rw [List.map_map] at hpairs
  exact hpairs

theorem groupWith_map {α β : Type} (tuple : β → List Value) (change : α → β) (items : List α) :
    groupWith tuple (items.map change) =
      (groupWith (fun item => tuple (change item)) items).map fun group =>
        (group.1, group.2.map change) := by
  rw [groupWith, List.map_map]
  exact groupByTuple_of_groupWith (fun item => tuple (change item)) change items

theorem groupWith_perm {α : Type} (tuple : α → List Value) (items : List α) :
    ((groupWith tuple items).flatMap Prod.snd).Perm items := by
  have hperm := groupByTuple_perm (items.map fun item => (tuple item, item))
  rw [List.map_map] at hperm
  exact hperm.trans (List.Perm.of_eq (List.map_id items))

theorem mem_of_mem_group {α : Type} {tuple : α → List Value} {items : List α}
    {group : List Value × List α} (hgroup : group ∈ groupWith tuple items) :
    ∀ item ∈ group.2, item ∈ items := by
  intro item hitem
  exact (groupWith_perm tuple items).subset (List.mem_flatMap.mpr ⟨group, hgroup, hitem⟩)

section Groups

variable {α : Type} {tuple first second : α → List Value} {items : List α} {item : α}

/-- The items with a tuple that equals the given one. -/
def withTuple (tuple : α → List Value) (wanted : List Value) (items : List α) : List α :=
  items.filter fun item => Value.sameItems wanted (tuple item)

theorem withTuple_congr {wanted other : List Value} (h : Value.sameItems wanted other = true)
    (tuple : α → List Value) (items : List α) :
    withTuple tuple wanted items = withTuple tuple other items := by
  apply List.filter_congr
  intro item _
  apply Bool.eq_iff_iff.mpr
  constructor
  · exact Value.sameItems_trans (Value.sameItems_symm h)
  · exact Value.sameItems_trans h

theorem mem_firstTuples_iff {pairs : List (List Value × α)} {wanted : List Value} :
    wanted ∈ firstTuples pairs ↔ (alike wanted pairs).head?.map Prod.fst = some wanted := by
  induction pairs using firstTuples.induct with
  | case1 => simp [firstTuples, alike]
  | case2 earliest item pairs ih =>
    rw [firstTuples, List.mem_cons]
    by_cases hsame : Value.sameItems earliest wanted = true
    · have hhead : alike wanted ((earliest, item) :: pairs) =
          (earliest, item) :: alike wanted pairs :=
        List.filter_cons_of_pos (Value.sameItems_symm hsame)
      have hlater : wanted ∉ firstTuples (others earliest pairs) := by
        intro hmem
        obtain ⟨found, hfound⟩ := exists_mem_of_mem_firstTuples _ wanted hmem
        have hdiffers := (List.mem_filter.mp hfound).2
        rw [hsame] at hdiffers
        cases hdiffers
      rw [hhead, List.head?_cons, Option.map_some, Option.some_inj]
      constructor
      · rintro (rfl | hmem)
        · rfl
        · exact absurd hmem hlater
      · rintro rfl
        exact .inl rfl
    · have hne : wanted ≠ earliest := by
        rintro rfl
        exact hsame (Value.sameItems_refl wanted)
      rw [alike_cons_of_later item pairs (Bool.not_eq_true _ ▸ hsame), ← ih]
      exact or_iff_right hne

theorem alike_map (tuple : α → List Value) (wanted : List Value) (items : List α) :
    alike wanted (items.map fun item => (tuple item, item)) =
      (withTuple tuple wanted items).map fun item => (tuple item, item) := List.filter_map

theorem groupWith_eq (tuple : α → List Value) (items : List α) :
    groupWith tuple items = (firstTuples (items.map fun item => (tuple item, item))).map
      fun wanted => (wanted, withTuple tuple wanted items) := by
  rw [groupWith, groupByTuple_eq]
  apply List.map_congr_left
  intro wanted _
  rw [alike_map, List.map_map]
  exact congrArg (Prod.mk wanted) (List.map_id _)

/-- **A group holds all items whose tuple equals that of the first of them.** -/
theorem mem_groupWith_iff {group : List Value × List α} :
    group ∈ groupWith tuple items ↔
      group.2 = withTuple tuple group.1 items ∧ group.2.head?.map tuple = some group.1 := by
  have hfirst : ∀ wanted, wanted ∈ firstTuples (items.map fun item => (tuple item, item)) ↔
      (withTuple tuple wanted items).head?.map tuple = some wanted := by
    intro wanted
    rw [mem_firstTuples_iff, alike_map, List.head?_map, Option.map_map]
    rfl
  obtain ⟨wanted, members⟩ := group
  rw [groupWith_eq, List.mem_map]
  constructor
  · rintro ⟨_, hwanted, heq⟩
    cases heq
    exact ⟨rfl, (hfirst wanted).mp hwanted⟩
  · rintro ⟨hmembers, hhead⟩
    rw [hmembers] at hhead
    exact ⟨wanted, (hfirst wanted).mpr hhead, congrArg (Prod.mk wanted) hmembers.symm⟩

/-- Every item is in the group of the items that are like it. -/
theorem exists_mem_groupWith (tuple : α → List Value) (hitem : item ∈ items) :
    ∃ wanted, (wanted, withTuple tuple (tuple item) items) ∈ groupWith tuple items := by
  have hmem : item ∈ withTuple tuple (tuple item) items :=
    List.mem_filter.mpr ⟨hitem, Value.sameItems_refl _⟩
  obtain ⟨earliest, rest, hcons⟩ := List.exists_cons_of_ne_nil (List.ne_nil_of_mem hmem)
  have hearliest : earliest ∈ withTuple tuple (tuple item) items := hcons ▸ List.mem_cons_self
  have hsame := (List.mem_filter.mp hearliest).2
  refine ⟨tuple earliest, mem_groupWith_iff.mpr ⟨withTuple_congr hsame tuple items, ?_⟩⟩
  rw [hcons]
  rfl

theorem distinct_groupWith (tuple : α → List Value) (items : List α) :
    (groupWith tuple items).Pairwise fun left right => Value.sameItems left.1 right.1 = false := by
  have hdistinct := distinct_firstTuples (items.map fun item => (tuple item, item))
  rw [← tuples_groupByTuple] at hdistinct
  exact List.pairwise_map.mp hdistinct

theorem nodup_groupWith (tuple : α → List Value) (items : List α) :
    (groupWith tuple items).Nodup := by
  apply (distinct_groupWith tuple items).imp
  rintro left _ hdiffers rfl
  rw [Value.sameItems_refl] at hdiffers
  cases hdiffers

/-! ## Groups of groups -/

/-- Both tuples of an item, one behind the other. -/
def bothTuples (first second : α → List Value) (item : α) : List Value := first item ++ second item

theorem withTuple_withTuple {outer inner : List Value}
    (hlength : ∀ item ∈ items, (first item).length = outer.length) :
    withTuple second inner (withTuple first outer items) =
      withTuple (bothTuples first second) (outer ++ inner) items := by
  rw [withTuple, withTuple, List.filter_filter]
  apply List.filter_congr
  intro item hitem
  rw [bothTuples, Value.sameItems_append (hlength item hitem).symm, Bool.and_comm]

/-- The groups by a second tuple of the groups by a first one. -/
def groupTwice (first second : α → List Value) (items : List α) :
    List ((List Value × List Value) × List α) :=
  (groupWith first items).flatMap fun group =>
    (groupWith second group.2).map fun inner => ((group.1, inner.1), inner.2)

/-- What a group of a group holds: the items for which both tuples equal those of its first. -/
structure LeafAt (first second : α → List Value) (items : List α)
    (leaf : (List Value × List Value) × List α) (item : α) : Prop where
  head : leaf.2.head? = some item
  outer : Value.sameItems leaf.1.1 (first item) = true
  inner : leaf.1.2 = second item
  members : leaf.2 = withTuple (bothTuples first second) (bothTuples first second item) items

variable {length : Nat} {leaf : (List Value × List Value) × List α}

theorem exists_leafAt (hlength : ∀ item ∈ items, (first item).length = length)
    (hleaf : leaf ∈ groupTwice first second items) :
    ∃ item, LeafAt first second items leaf item := by
  obtain ⟨group, hgroup, hinner⟩ := List.mem_flatMap.mp hleaf
  obtain ⟨inner, hmem, rfl⟩ := List.mem_map.mp hinner
  obtain ⟨hmembers, -⟩ := mem_groupWith_iff.mp hgroup
  obtain ⟨hpicked, hhead⟩ := mem_groupWith_iff.mp hmem
  obtain ⟨item, hitem, htuple⟩ := Option.map_eq_some_iff.mp hhead
  have hwithin : item ∈ withTuple first group.1 items := by
    rw [← hmembers]
    rw [hpicked] at hitem
    exact List.filter_sublist.subset (List.mem_of_head? hitem)
  obtain ⟨hmemItems, hsame⟩ := List.mem_filter.mp hwithin
  refine ⟨item, hitem, hsame, htuple.symm, ?_⟩
  have houter : ∀ other ∈ items, (first other).length = (first item).length := by
    intro other hother
    rw [hlength other hother, hlength item hmemItems]
  calc inner.2 = withTuple second inner.1 (withTuple first group.1 items) := by
        rw [hpicked, hmembers]
    _ = withTuple second (second item) (withTuple first (first item) items) := by
        rw [withTuple_congr hsame, htuple]
    _ = _ := withTuple_withTuple houter

/-- Every item is in a group of a group, with all items that are like it in both tuples. -/
theorem exists_mem_groupTwice (second : α → List Value)
    (hlength : ∀ item ∈ items, (first item).length = length) (hitem : item ∈ items) :
    ∃ leaf ∈ groupTwice first second items,
      leaf.2 = withTuple (bothTuples first second) (bothTuples first second item) items := by
  obtain ⟨outer, houter⟩ := exists_mem_groupWith first hitem
  have hwithin : item ∈ withTuple first (first item) items :=
    List.mem_filter.mpr ⟨hitem, Value.sameItems_refl _⟩
  obtain ⟨inner, hinner⟩ := exists_mem_groupWith second hwithin
  refine ⟨((outer, inner), _), List.mem_flatMap.mpr ⟨_, houter, List.mem_map_of_mem hinner⟩, ?_⟩
  apply withTuple_withTuple
  intro other hother
  rw [hlength other hother, hlength item hitem]

/-- No two groups of groups hold the same items. -/
theorem pairwise_groupTwice (hlength : ∀ item ∈ items, (first item).length = length) :
    (groupTwice first second items).Pairwise fun left right => left.2 ≠ right.2 := by
  apply List.pairwise_flatMap.mpr
  constructor
  · intro group _
    apply List.pairwise_map.mpr
    apply (distinct_groupWith second group.2).imp_of_mem
    intro left right hleft hright hdiffers heq
    have hleftHead := (mem_groupWith_iff.mp hleft).2
    have hrightHead := (mem_groupWith_iff.mp hright).2
    rw [show left.2 = right.2 from heq, hrightHead] at hleftHead
    rw [Option.some_inj.mp hleftHead, Value.sameItems_refl] at hdiffers
    cases hdiffers
  · apply (distinct_groupWith first items).imp_of_mem
    intro group other hgroup hother hdiffers left hleft right hright heq
    obtain ⟨item, hitem⟩ := exists_leafAt hlength (List.mem_flatMap.mpr ⟨group, hgroup, hleft⟩)
    obtain ⟨same, hsame⟩ := exists_leafAt hlength (List.mem_flatMap.mpr ⟨other, hother, hright⟩)
    obtain ⟨inner, -, rfl⟩ := List.mem_map.mp hleft
    obtain ⟨inner', -, rfl⟩ := List.mem_map.mp hright
    -- The first item of both would have the tuple of each group.
    obtain rfl : item = same := by
      have hhead := hitem.head
      rw [heq, hsame.head] at hhead
      exact (Option.some_inj.mp hhead).symm
    rw [Value.sameItems_trans hitem.outer (Value.sameItems_symm hsame.outer)] at hdiffers
    cases hdiffers

/-- A group of a group as one by both tuples. -/
def flattened (first second : α → List Value) (leaf : (List Value × List Value) × List α) :
    List Value × List α :=
  ((leaf.2.head?.map (bothTuples first second)).getD [], leaf.2)

theorem LeafAt.flattened_eq (h : LeafAt first second items leaf item) :
    flattened first second leaf = (bothTuples first second item, leaf.2) := by
  rw [flattened, h.head]
  rfl

/-- **The groups of groups are the groups by both tuples**, in another order. -/
theorem perm_flattened (hlength : ∀ item ∈ items, (first item).length = length) :
    ((groupTwice first second items).map (flattened first second)).Perm
      (groupWith (bothTuples first second) items) := by
  have hnodup : ((groupTwice first second items).map (flattened first second)).Nodup := by
    apply List.pairwise_map.mpr
    apply (pairwise_groupTwice hlength).imp
    intro left right hdiffers heq
    have hmembers := congrArg Prod.snd heq
    exact hdiffers hmembers
  apply (List.perm_ext_iff_of_nodup hnodup (nodup_groupWith _ _)).mpr
  intro group
  constructor
  · intro hgroup
    obtain ⟨leaf, hleaf, rfl⟩ := List.mem_map.mp hgroup
    obtain ⟨item, hitem⟩ := exists_leafAt hlength hleaf
    rw [hitem.flattened_eq]
    refine mem_groupWith_iff.mpr ⟨hitem.members, ?_⟩
    rw [hitem.head]
    rfl
  · intro hgroup
    obtain ⟨hmembers, hhead⟩ := mem_groupWith_iff.mp hgroup
    obtain ⟨item, hitem, htuple⟩ := Option.map_eq_some_iff.mp hhead
    have hmem : item ∈ items := by
      rw [hmembers] at hitem
      exact List.filter_sublist.subset (List.mem_of_head? hitem)
    obtain ⟨leaf, hleaf, hsame⟩ := exists_mem_groupTwice second hlength hmem
    refine List.mem_map.mpr ⟨leaf, hleaf, ?_⟩
    have hall : leaf.2 = group.2 := by rw [hsame, hmembers, htuple]
    rw [flattened, hall, hhead]
    rfl

end Groups

end Logbook
