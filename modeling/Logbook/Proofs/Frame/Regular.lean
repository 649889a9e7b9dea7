import Logbook.Proofs.Frame.Leaves
import Logbook.Proofs.Frame.Size
import Logbook.Proofs.Frame.Tracking

/-!
# Groupings stay regular

A grouping is a tree, and most of its operations rely on more than its type says: that
no two tuples of a split are equal, that every tuple has a value for each key, that no
part is empty, and that the parts are split by the same keys.  `Grouping.Regular` says
all of this of a part, and `Grouping.Sound` of a whole grouping, which may have lost all
its groups to a filter.  Every grouping that operations lead to from a split of a frame
is sound, and its table of sizes is right (`Grouping.sound_of_reached`).

## Strategy

An operation changes the frames at the leaves, or drops groups, or splits anew.

* Changing leaves keeps all tuples (`mapGroups_spec`), so it is enough that no frame
  gets empty; a split of the leaves adds a level below (`Regular.mapFrames`).
* Dropping groups leaves a sublist of the tuples (`filterGroups_spec`).
* Splitting anew starts from a frame, and a split of a frame is sound
  (`sound_of_frame`).

The table of sizes replaces what it has for a tuple, so it has an entry for each group
only because the tuples differ (`sizesOfGroups_of_distinct`).
-/

namespace Logbook

/-- No two of some tuples are equal. -/
def Distinct (tuples : List (List Value)) : Prop :=
  tuples.Pairwise fun first second => Value.sameItems first second = false

/-- Tuples that can stand in one split by the given keys. -/
structure Level (keys : List String) (tuples : List (List Value)) : Prop where
  length : ∀ tuple ∈ tuples, tuple.length = keys.length
  distinct : Distinct tuples

theorem Level.sublist {keys : List String} {tuples fewer : List (List Value)}
    (h : Level keys tuples) (hfewer : fewer.Sublist tuples) : Level keys fewer where
  length tuple htuple := h.length tuple (hfewer.subset htuple)
  distinct := List.Pairwise.sublist hfewer h.distinct

namespace Grouping

/-- A part that is split by the same keys everywhere at each depth, has right tuples in
every split, and is empty nowhere. -/
inductive Regular : List (List String) → Grouping → Prop
  | whole {frame : Frame} (hrows : 0 < frame.size) : Regular [] (whole frame)
  | split {keys : List String} {below : List (List String)}
      {groups : List (List Value × Grouping)} (hne : groups ≠ [])
      (hlevel : Level keys (groups.map Prod.fst))
      (hgroups : ∀ group ∈ groups, Regular below group.2) :
      Regular (keys :: below) (split keys groups)

/-- A split by the given keys with right tuples, whose parts are all regular and split by
the same keys below.  It may have no part. -/
def Sound (keys : List String) (grouping : Grouping) : Prop :=
  ∃ below groups, grouping = split keys groups ∧ Level keys (groups.map Prod.fst) ∧
    ∀ group ∈ groups, group.2.Regular below

variable {disk : Disk} {shelf after : Shelf} {grouping result : Grouping}
  {groups results : List (List Value × Grouping)} {keys : List String}
  {below more : List (List String)}

/-! ## Changing the frames -/

theorem mapGroups_spec {change : Frame → Reading Grouping} {goal : Grouping → Prop}
    (hgroups : ∀ group ∈ groups, ∀ shelf result after,
      group.2.mapFrames change disk shelf = (.ok result, after) → goal result)
    (hrun : mapGroups change groups disk shelf = (.ok results, after)) :
    results.map Prod.fst = groups.map Prod.fst ∧ ∀ result ∈ results, goal result.2 := by
  induction groups generalizing results shelf with
  | nil =>
    rw [mapGroups] at hrun
    cases hrun
    exact ⟨rfl, fun result hresult => absurd hresult List.not_mem_nil⟩
  | cons group groups ih =>
    obtain ⟨tuple, group⟩ := group
    rw [mapGroups] at hrun
    obtain ⟨first, between, hfirst, hrest⟩ := Reading.bind_eq_ok.mp hrun
    obtain ⟨rest, last, hlast, hpure⟩ := Reading.bind_eq_ok.mp hrest
    cases hpure
    obtain ⟨htuples, hgoal⟩ := ih
      (fun other hother => hgroups other (List.mem_cons_of_mem _ hother)) hlast
    refine ⟨by rw [List.map_cons, List.map_cons, htuples], ?_⟩
    intro result hresult
    obtain rfl | hmem := List.mem_cons.mp hresult
    · exact hgroups (tuple, group) List.mem_cons_self shelf first between hfirst
    · exact hgoal result hmem

/-- What a change of frames adds below, it adds below every part. -/
theorem Regular.mapFrames {change : Frame → Reading Grouping}
    (hchange : ∀ frame shelf result after, 0 < frame.size →
      change frame disk shelf = (.ok result, after) → result.Regular more)
    (h : grouping.Regular below)
    (hrun : grouping.mapFrames change disk shelf = (.ok result, after)) :
    result.Regular (below ++ more) := by
  induction h generalizing result shelf after with
  | whole hrows =>
    rw [Grouping.mapFrames] at hrun
    exact hchange _ shelf result after hrows hrun
  | @split keys below groups hne hlevel _ ih =>
    rw [Grouping.mapFrames] at hrun
    obtain ⟨results, between, hresults, hpure⟩ := Reading.bind_eq_ok.mp hrun
    cases hpure
    obtain ⟨htuples, hregular⟩ := mapGroups_spec
      (fun group hgroup shelf result after => ih group hgroup) hresults
    refine .split ?_ (htuples ▸ hlevel) hregular
    rintro rfl
    exact hne (List.map_eq_nil_iff.mp htuples.symm)

theorem Sound.mapFrames {change : Frame → Reading Grouping} (more : List (List String))
    (hchange : ∀ frame shelf result after, 0 < frame.size →
      change frame disk shelf = (.ok result, after) → result.Regular more)
    (h : grouping.Sound keys)
    (hrun : grouping.mapFrames change disk shelf = (.ok result, after)) : result.Sound keys := by
  obtain ⟨below, groups, rfl, hlevel, hgroups⟩ := h
  rw [Grouping.mapFrames] at hrun
  obtain ⟨results, between, hresults, hpure⟩ := Reading.bind_eq_ok.mp hrun
  cases hpure
  obtain ⟨htuples, hregular⟩ := mapGroups_spec
    (fun group hgroup shelf result after => (hgroups group hgroup).mapFrames hchange) hresults
  exact ⟨below ++ more, results, rfl, htuples ▸ hlevel, hregular⟩

/-- A change of frames into frames that empties none keeps a grouping sound. -/
theorem Sound.mapWhole {change : Frame → Reading Frame}
    (hchange : ∀ frame shelf result after, 0 < frame.size →
      change frame disk shelf = (.ok result, after) → 0 < result.size)
    (h : grouping.Sound keys)
    (hrun : grouping.mapWhole change disk shelf = (.ok result, after)) : result.Sound keys := by
  refine h.mapFrames [] (fun frame shelf result after hrows hchanged => ?_) hrun
  obtain ⟨changed, between, hframe, hpure⟩ := Reading.bind_eq_ok.mp hchanged
  cases hpure
  exact .whole (hchange frame shelf changed _ hrows hframe)

/-! ## Splitting -/

end Grouping

theorem distinct_firstTuples {α : Type} (pairs : List (List Value × α)) :
    Distinct (firstTuples pairs) := by
  induction pairs using firstTuples.induct with
  | case1 => simp [firstTuples, Distinct]
  | case2 tuple item pairs ih =>
    rw [firstTuples]
    refine List.Pairwise.cons (fun other hother => ?_) ih
    obtain ⟨found, hfound⟩ := exists_mem_of_mem_firstTuples _ other hother
    simpa using (List.mem_filter.mp hfound).2

theorem tuples_groupByTuple {α : Type} (pairs : List (List Value × α)) :
    (groupByTuple pairs).map Prod.fst = firstTuples pairs := by
  rw [groupByTuple_eq, List.map_map]
  exact List.map_id _

theorem ne_nil_of_mem_groupByTuple {α : Type} {pairs : List (List Value × α)}
    {group : List Value × List α} (hgroup : group ∈ groupByTuple pairs) : group.2 ≠ [] := by
  rw [groupByTuple_eq] at hgroup
  obtain ⟨tuple, htuple, rfl⟩ := List.mem_map.mp hgroup
  obtain ⟨item, hitem⟩ := exists_mem_of_mem_firstTuples pairs tuple htuple
  have hmem : (tuple, item) ∈ alike tuple pairs :=
    List.mem_filter.mpr ⟨hitem, Value.sameItems_refl tuple⟩
  exact List.ne_nil_of_mem (List.mem_map_of_mem hmem)

namespace Frame

variable {frame : Frame} {keys : List String} {disk : Disk} {shelf after : Shelf}
  {grouping : Grouping}

theorem length_of_mem_readTuples {pairs : List (List Value × Row)}
    (hrun : frame.readTuples keys disk shelf = (.ok pairs, after)) {pair : List Value × Row}
    (hpair : pair ∈ pairs) : pair.1.length = keys.length := by
  obtain ⟨_, -, before, next, hgrouped⟩ := Reading.exists_of_mem_mapM hrun hpair
  obtain ⟨tuple, read, htuple, hrest⟩ := Reading.bind_eq_ok.mp hgrouped
  obtain ⟨-, released, -, hrest⟩ := Reading.bind_eq_ok.mp hrest
  obtain ⟨copy, copied, -, hpure⟩ := Reading.bind_eq_ok.mp hrest
  cases hpure
  exact Reading.length_of_mapM htuple

/-- The level and the leaves of a split of a frame. -/
theorem level_of_groupBy (hrun : frame.groupBy keys disk shelf = (.ok grouping, after)) :
    ∃ groups, grouping = .split keys groups ∧ Level keys (groups.map Prod.fst) ∧
      (∀ group ∈ groups, group.2.Regular []) ∧ (0 < frame.size → groups ≠ []) := by
  obtain ⟨pairs, hpairs, rfl⟩ := Frame.groupBy_eq_ok hrun
  have htuples : ((groupByTuple pairs).map fun group =>
      (group.1, Grouping.whole ⟨group.2⟩)).map Prod.fst = firstTuples pairs := by
    rw [List.map_map]
    exact tuples_groupByTuple pairs
  refine ⟨_, rfl, ?level, ?leaves, ?nonempty⟩
  case level =>
    rw [htuples]
    refine ⟨fun tuple htuple => ?_, distinct_firstTuples pairs⟩
    obtain ⟨row, hrow⟩ := exists_mem_of_mem_firstTuples pairs tuple htuple
    exact length_of_mem_readTuples hpairs hrow
  case leaves =>
    intro group hgroup
    obtain ⟨part, hpart, rfl⟩ := List.mem_map.mp hgroup
    exact .whole (List.length_pos_iff.mpr (ne_nil_of_mem_groupByTuple hpart))
  case nonempty =>
    intro hrows hnil
    have hlength : pairs.length = frame.size := by
      rw [Reading.length_of_mapM hpairs, List.length_zipIdx]
      rfl
    cases pairs with
    | nil =>
      rw [← hlength] at hrows
      exact Nat.lt_irrefl 0 hrows
    | cons pair pairs =>
      rw [hnil, firstTuples] at htuples
      cases htuples

end Frame

namespace Grouping

variable {disk : Disk} {shelf after : Shelf} {grouping result : Grouping}
  {groups results : List (List Value × Grouping)} {keys : List String}
  {below more : List (List String)}

theorem sound_of_frame {frame : Frame}
    (hrun : frame.groupBy keys disk shelf = (.ok grouping, after)) : grouping.Sound keys := by
  obtain ⟨groups, rfl, hlevel, hleaves, -⟩ := Frame.level_of_groupBy hrun
  exact ⟨[], groups, rfl, hlevel, hleaves⟩

theorem regular_of_frame {frame : Frame} (hrows : 0 < frame.size)
    (hrun : frame.groupBy keys disk shelf = (.ok grouping, after)) : grouping.Regular [keys] := by
  obtain ⟨groups, rfl, hlevel, hleaves, hne⟩ := Frame.level_of_groupBy hrun
  exact .split (hne hrows) hlevel hleaves

theorem Sound.groupBy {inner : List String} (h : grouping.Sound keys)
    (hrun : grouping.groupBy inner disk shelf = (.ok result, after)) : result.Sound keys :=
  h.mapFrames [inner] (fun _ _ _ _ hrows hsplit => regular_of_frame hrows hsplit) hrun

theorem Regular.groupByLevels (levels : List (List String)) (h : grouping.Regular below)
    (hrun : grouping.groupByLevels levels disk shelf = (.ok result, after)) :
    result.Regular (below ++ levels) := by
  induction levels generalizing grouping below shelf with
  | nil =>
    cases hrun
    rwa [List.append_nil]
  | cons inner levels ih =>
    obtain ⟨first, between, hfirst, hrest⟩ := Reading.bind_eq_ok.mp hrun
    have hregular : first.Regular (below ++ [inner]) :=
      h.mapFrames (fun _ _ _ _ hrows hsplit => regular_of_frame hrows hsplit) hfirst
    rw [List.append_cons]
    exact ih hregular hrest

theorem Sound.groupByLevels (levels : List (List String)) (h : grouping.Sound keys)
    (hrun : grouping.groupByLevels levels disk shelf = (.ok result, after)) :
    result.Sound keys := by
  induction levels generalizing grouping shelf with
  | nil =>
    cases hrun
    exact h
  | cons inner levels ih =>
    obtain ⟨first, between, hfirst, hrest⟩ := Reading.bind_eq_ok.mp hrun
    exact ih (h.groupBy hfirst) hrest

/-! ## Dropping groups -/

theorem filterGroups_spec {mapping : Mapping} {goal : Grouping → Prop}
    (hgroups : ∀ group ∈ groups, ∀ shelf result after,
      group.2.filter mapping disk shelf = (.ok result, after) → result.isEmpty = false →
        goal result)
    (hrun : filterGroups mapping groups disk shelf = (.ok results, after)) :
    (results.map Prod.fst).Sublist (groups.map Prod.fst) ∧
      ∀ result ∈ results, goal result.2 := by
  induction groups generalizing results after shelf with
  | nil =>
    rw [filterGroups] at hrun
    cases hrun
    exact ⟨List.Sublist.slnil, fun result hresult => absurd hresult List.not_mem_nil⟩
  | cons group groups ih =>
    obtain ⟨tuple, group⟩ := group
    rw [filterGroups] at hrun
    obtain ⟨first, between, hfirst, hrest⟩ := Reading.bind_eq_ok.mp hrun
    obtain ⟨rest, last, hlast, hpure⟩ := Reading.bind_eq_ok.mp hrest
    obtain ⟨hsublist, hgoal⟩ := ih
      (fun other hother => hgroups other (List.mem_cons_of_mem _ hother)) hlast
    cases hempty : first.isEmpty with
    | true =>
      rw [if_pos hempty] at hpure
      cases hpure
      exact ⟨hsublist.cons tuple, hgoal⟩
    | false =>
      rw [if_neg (by rw [hempty]; exact Bool.false_ne_true)] at hpure
      cases hpure
      refine ⟨hsublist.cons_cons tuple, fun result hresult => ?_⟩
      obtain rfl | hmem := List.mem_cons.mp hresult
      · exact hgroups (tuple, group) List.mem_cons_self shelf first between hfirst hempty
      · exact hgoal result hmem

theorem Regular.filter {mapping : Mapping} (h : grouping.Regular below)
    (hrun : grouping.filter mapping disk shelf = (.ok result, after))
    (hresult : result.isEmpty = false) : result.Regular below := by
  induction h generalizing result shelf after with
  | whole _ =>
    rw [Grouping.filter] at hrun
    obtain ⟨kept, between, -, hpure⟩ := Reading.bind_eq_ok.mp hrun
    cases hpure
    exact .whole (List.length_pos_iff.mpr (List.isEmpty_eq_false_iff.mp hresult))
  | @split keys below groups _ hlevel _ ih =>
    rw [Grouping.filter] at hrun
    obtain ⟨results, between, hresults, hpure⟩ := Reading.bind_eq_ok.mp hrun
    cases hpure
    obtain ⟨hsublist, hregular⟩ := filterGroups_spec
      (fun group hgroup shelf result after => ih group hgroup) hresults
    exact .split (List.isEmpty_eq_false_iff.mp hresult) (hlevel.sublist hsublist) hregular

theorem Sound.filter {mapping : Mapping} (h : grouping.Sound keys)
    (hrun : grouping.filter mapping disk shelf = (.ok result, after)) : result.Sound keys := by
  obtain ⟨below, groups, rfl, hlevel, hgroups⟩ := h
  rw [Grouping.filter] at hrun
  obtain ⟨results, between, hresults, hpure⟩ := Reading.bind_eq_ok.mp hrun
  cases hpure
  obtain ⟨hsublist, hregular⟩ := filterGroups_spec
    (fun group hgroup shelf result after => (hgroups group hgroup).filter) hresults
  exact ⟨below, results, rfl, hlevel.sublist hsublist, hregular⟩

/-- A grouping is split by the keys of its first level again, so these stay. -/
theorem Sound.filterBy {mapping : Mapping} {others : List String} (h : grouping.Sound keys)
    (hrun : grouping.filterBy mapping others disk shelf = (.ok result, after)) :
    result.Sound keys := by
  obtain ⟨below, groups, rfl, -, -⟩ := h
  obtain ⟨flat, flattened, -, hrest⟩ := Reading.bind_eq_ok.mp hrun
  obtain ⟨regrouped, grouped, -, hrest⟩ := Reading.bind_eq_ok.mp hrest
  obtain ⟨kept, filtered, -, hlevels⟩ := Reading.bind_eq_ok.mp hrest
  rw [levels, Grouping.groupByLevels] at hlevels
  obtain ⟨first, between, hfirst, hrest⟩ := Reading.bind_eq_ok.mp hlevels
  rw [Grouping.groupBy, Grouping.mapFrames] at hfirst
  exact (sound_of_frame hfirst).groupByLevels _ hrest

theorem Sound.select {tuples : List (List Value)} (h : grouping.Sound keys)
    (hrun : grouping.select tuples disk shelf = (.ok result, after)) : result.Sound keys := by
  obtain ⟨below, groups, rfl, hlevel, hgroups⟩ := h
  let chosen := groups.filter fun group => tuples.any fun tuple => Value.sameItems tuple group.1
  have hchosen : (split keys chosen).Sound keys :=
    ⟨below, chosen, rfl, hlevel.sublist (List.filter_sublist.map Prod.fst),
      fun group hgroup => hgroups group (List.mem_filter.mp hgroup).1⟩
  have hcopied : (split keys chosen).mapWhole Frame.copy disk shelf = (.ok result, after) := hrun
  refine hchosen.mapWhole (fun frame shelf result after hrows hcopy => ?_) hcopied
  rw [Frame.size_of_copy hcopy]
  exact hrows

/-! ## Operations -/

/-- An operation that makes a grouping from a grouping. -/
inductive Operation where
  | groupBy (keys : List String)
  | filter (mapping : Mapping) (groups : Option (List String))
  | select (tuples : List (List Value))
  | sort (keys : List String) (ascending : Bool)
  | mapCells (mappings : List Mapping)
  | transform (mappings : List Mapping)
  | aggregate (mappings : List Mapping)
  | apply (mappings : List Mapping) (mode : Mode)

/-- What an operation does. -/
def Operation.perform (grouping : Grouping) : Operation → Reading Grouping
  | groupBy keys => grouping.groupBy keys
  | filter mapping none => grouping.filter mapping
  | filter mapping (some keys) => grouping.filterBy mapping keys
  | select tuples => grouping.select tuples
  | sort keys ascending => grouping.sort keys ascending
  | mapCells mappings => grouping.mapCells mappings
  | transform mappings => grouping.transform mappings
  | aggregate mappings => grouping.aggregate mappings
  | apply mappings mode => grouping.apply mappings mode

theorem Sound.apply {mappings : List Mapping} {mode : Mode} (h : grouping.Sound keys)
    (hrun : grouping.apply mappings mode disk shelf = (.ok result, after)) :
    result.Sound keys := by
  refine h.mapWhole (fun frame shelf result after hrows hchanged => ?_) hrun
  obtain hsize | hsize := Frame.size_of_apply hchanged <;> omega

/-- **No operation breaks a grouping.** -/
theorem Sound.perform (operation : Operation) (h : grouping.Sound keys)
    (hrun : operation.perform grouping disk shelf = (.ok result, after)) : result.Sound keys := by
  cases operation with
  | groupBy inner => exact h.groupBy hrun
  | filter mapping groups =>
    cases groups with
    | none => exact h.filter hrun
    | some others => exact h.filterBy hrun
  | select tuples => exact h.select hrun
  | sort sorting ascending =>
    refine h.mapWhole (fun frame shelf result after hrows hchanged => ?_) hrun
    rw [Frame.size_of_sort hchanged]
    exact hrows
  | mapCells mappings => exact h.apply hrun
  | transform mappings =>
    refine h.mapWhole (fun frame shelf result after hrows hchanged => ?_) hrun
    rw [Frame.size_of_transform hchanged]
    exact hrows
  | aggregate mappings =>
    refine h.mapWhole (fun frame shelf result after hrows hchanged => ?_) hrun
    rw [Frame.size_of_aggregate hchanged]
    exact Nat.one_pos
  | apply mappings mode => exact h.apply hrun

/-- The groupings that operations, one after another, lead to from a split of a frame by
the given keys.  The shelf may have changed in between. -/
inductive Reached (keys : List String) : Grouping → Prop
  | grouped {frame : Frame} {disk : Disk} {shelf after : Shelf} {grouping : Grouping}
      (hrun : frame.groupBy keys disk shelf = (.ok grouping, after)) : Reached keys grouping
  | performed {operation : Operation} {disk : Disk} {shelf after : Shelf}
      {grouping result : Grouping} (hreached : Reached keys grouping)
      (hrun : operation.perform grouping disk shelf = (.ok result, after)) : Reached keys result

/-! ## Sizes -/

theorem setSize_of_new {tuple : List Value} {table : List (List Value × Nat)} (size : Nat)
    (hnew : ∀ entry ∈ table, Value.sameItems entry.1 tuple = false) :
    setSize tuple size table = table ++ [(tuple, size)] := by
  induction table with
  | nil => rfl
  | cons entry table ih =>
    have hhead : ¬ Value.sameItems entry.1 tuple = true := by
      rw [hnew entry List.mem_cons_self]
      exact Bool.false_ne_true
    rw [setSize, if_neg hhead, ih fun other hother => hnew other (List.mem_cons_of_mem _ hother),
      List.cons_append]

/-- Groups whose tuples are new to a table each get an entry. -/
theorem sizesOfGroups_of_distinct (table : List (List Value × Nat))
    (hdistinct : Distinct (table.map Prod.fst ++ groups.map Prod.fst)) :
    sizesOfGroups table groups = table ++ groups.map fun group => (group.1, group.2.size) := by
  induction groups generalizing table with
  | nil => rw [sizesOfGroups, List.map_nil, List.append_nil]
  | cons group groups ih =>
    obtain ⟨tuple, group⟩ := group
    have hnew : ∀ entry ∈ table, Value.sameItems entry.1 tuple = false := by
      intro entry hentry
      exact (List.pairwise_append.mp hdistinct).2.2 entry.1 (List.mem_map_of_mem hentry) tuple
        List.mem_cons_self
    rw [sizesOfGroups, setSize_of_new group.size hnew, ih, List.append_assoc]
    · rfl
    · rw [List.map_append, List.append_assoc]
      exact hdistinct

theorem length_rowsOfGroups (keys : List String) (groups : List (List Value × Grouping)) :
    (rowsOfGroups keys groups).length = (groups.map fun group => group.2.rows.length).sum := by
  induction groups with
  | nil => rfl
  | cons group groups ih =>
    rw [rowsOfGroups, List.length_append, List.length_map, ih, List.map_cons, List.sum_cons]

theorem Regular.size_eq (h : grouping.Regular below) : grouping.size = grouping.rows.length := by
  induction h with
  | whole _ => rfl
  | @split keys below groups _ hlevel _ ih =>
    have hsizes : (groups.map fun group => group.2.size) =
        groups.map fun group => group.2.rows.length := List.map_congr_left ih
    rw [size, sizesOfGroups_of_distinct [] hlevel.distinct, List.nil_append, rows,
      length_rowsOfGroups, ← hsizes, List.sum_eq_foldl, List.foldl_map, List.foldl_map]

theorem Sound.sizes_eq (h : grouping.Sound keys) :
    grouping.sizes = grouping.groups.map fun group => (group.1, group.2.rows.length) := by
  obtain ⟨below, groups, rfl, hlevel, hgroups⟩ := h
  rw [sizes, Grouping.groups, sizesOfGroups_of_distinct [] hlevel.distinct, List.nil_append]
  refine List.map_congr_left fun group hgroup => ?_
  rw [(hgroups group hgroup).size_eq]

/-- Ungrouping always succeeds, with the rows of all leaves. -/
theorem exists_ungroup (grouping : Grouping) (disk : Disk) (shelf : Shelf) :
    ∃ flat after, grouping.ungroup disk shelf = (.ok flat, after) ∧
      flat.size = grouping.rows.length := by
  obtain ⟨copied, after, hcopied, hleaves⟩ := leaves_copy grouping disk shelf
  refine ⟨⟨copied.rows⟩, after, ?_, ?_⟩
  · rw [ungroup, Reading.bind_of_ok hcopied]
    rfl
  · rw [Frame.size, rows_eq_leaves, rows_eq_leaves, List.length_map, List.length_map]
    exact Reading.length_of_mapM (hleaves [])

/-- The table of sizes has each tuple of the outermost split, with the number of rows
that its group has when it is ungrouped, and no other.  All in all it counts the rows that
ungrouping gives. -/
structure CountsRows (grouping : Grouping) (disk : Disk) (shelf : Shelf) : Prop where
  tuples : grouping.sizes.map Prod.fst = grouping.tuples
  group : ∀ group ∈ grouping.groups, ∃ flat after,
    group.2.ungroup disk shelf = (.ok flat, after) ∧ (group.1, flat.size) ∈ grouping.sizes
  all : ∃ flat after, grouping.ungroup disk shelf = (.ok flat, after) ∧
    (grouping.sizes.map Prod.snd).sum = flat.size

theorem Sound.countsRows (h : grouping.Sound keys) (disk : Disk) (shelf : Shelf) :
    grouping.CountsRows disk shelf := by
  have hsizes := h.sizes_eq
  refine ⟨?tuples, fun group hgroup => ?group, ?all⟩
  case tuples =>
    rw [hsizes, List.map_map]
    rfl
  case group =>
    obtain ⟨flat, after, hungroup, hsize⟩ := exists_ungroup group.2 disk shelf
    refine ⟨flat, after, hungroup, ?_⟩
    rw [hsizes, hsize]
    exact List.mem_map_of_mem hgroup
  case all =>
    obtain ⟨flat, after, hungroup, hsize⟩ := exists_ungroup grouping disk shelf
    refine ⟨flat, after, hungroup, ?_⟩
    obtain ⟨below, groups, rfl, -, -⟩ := h
    rw [hsizes, hsize, rows, length_rowsOfGroups, List.map_map]
    rfl

/-- **Every grouping that is reached is sound, and its table of sizes counts its rows.** -/
theorem sound_of_reached (h : grouping.Reached keys) :
    grouping.Sound keys ∧ ∀ disk shelf, grouping.CountsRows disk shelf := by
  have hsound : grouping.Sound keys := by
    induction h with
    | grouped hrun => exact sound_of_frame hrun
    | performed _ hrun ih => exact ih.perform _ hrun
  exact ⟨hsound, hsound.countsRows⟩

/-- Four runs are split by a key, where an integer and a double are equal, and again by
another.  A filter that looks at all runs of one seed at a time drops a group. -/
theorem sound_of_filtered_seeds :
    let several : Mapping :=
      { name := "several"
        inputs := ["config.lr"]
        outputs := none
        call := fun arguments => .ok (arguments.map fun column =>
          let items := column.toItems?.getD []
          .list (items.map fun _ => .bool (1 < items.length))) }
    let frame : Frame := ⟨[
      Row.ofFields (some 1) [("config.lr", .int 1), ("config.seed", .int 7)],
      Row.ofFields (some 2) [("config.lr", .int 2), ("config.seed", .int 7)],
      Row.ofFields (some 3) [("config.lr", .int 1), ("config.seed", .int 8)],
      Row.ofFields (some 4) [("config.lr", .float (.ofInt 1)), ("config.seed", .int 7)]]⟩
    let chain : Reading Grouping := do
      let first ← frame.groupBy ["config.lr"]
      let second ← (Operation.groupBy ["config.seed"]).perform first
      (Operation.filter several (some ["config.seed"])).perform second
    let disk := Disk.empty ⟨"/runs"⟩
    ∃ grouping after, chain disk {} = (.ok grouping, after) ∧ grouping.Reached ["config.lr"] ∧
      grouping.levels = [["config.lr"], ["config.seed"]] ∧
      grouping.sizes.map Prod.snd = [2, 1] ∧
      grouping.Sound ["config.lr"] ∧ ∀ disk shelf, grouping.CountsRows disk shelf := by
  intro several frame chain disk
  have hchain : ((chain disk {}).1.map
      fun grouping => (grouping.levels, grouping.sizes.map Prod.snd)).toOption =
        some ([["config.lr"], ["config.seed"]], [2, 1]) := by decide +kernel
  obtain ⟨grouping, after, hrun, hseen⟩ := Outcome.exists_eq_ok_of_seen hchain
  obtain ⟨hlevels, hsizes⟩ := Prod.mk.inj hseen
  obtain ⟨first, _, hfirst, hrest⟩ := Reading.bind_eq_ok.mp hrun
  obtain ⟨second, _, hsecond, hthird⟩ := Reading.bind_eq_ok.mp hrest
  have hreached : Reached ["config.lr"] grouping :=
    .performed (.performed (.grouped hfirst) hsecond) hthird
  exact ⟨grouping, after, hrun, hreached, hlevels, hsizes, sound_of_reached hreached⟩

end Grouping

end Logbook
