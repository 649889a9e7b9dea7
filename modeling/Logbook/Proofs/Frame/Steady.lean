import Logbook.Proofs.Frame.Groups
import Logbook.Proofs.Frame.Ungroup
import Logbook.Proofs.Row.Steady

/-!
# Grouping by steady fields

If loaders are faithful and the fields at the keys are steady, a grouping does not depend on what
else has been read: it succeeds exactly if every row gives a value at every key, and then it puts
the rows together by the tuples that they gave at the start (`Tracked.Invariant.meets_groupBy`).
This holds for the frame and for each group of an earlier grouping alike
(`Tracked.Invariant.meets_mapGroups`), where copies stand for the rows.

## Strategy

The rows are followed on their way as in any grouping, by `Tracked` items, which here remember
what the row gives at the start (`Tracked.Recalls`), as reading the copy of a steady field gives
what the row gave (`Tracked.Sound.get?_eq_start`).
That a run succeeds exactly if a condition holds, and what it gives then, is said together
(`Reading.Meets`), and goes through sequences.
-/

namespace Logbook

/-! ## Readings that succeed under a condition -/

namespace Reading

variable {α β : Type} {disk : Disk} {now after : Shelf}

/-- The reading succeeds exactly under the condition, and then its result and the shelf after it
are as described. -/
structure Meets (disk : Disk) (now : Shelf) (reading : Reading α) (condition : Prop)
    (result : α → Shelf → Prop) : Prop where
  succeeds (h : condition) :
    ∃ value after, reading disk now = (.ok value, after) ∧ result value after
  needs {value : α} {after : Shelf} (hrun : reading disk now = (.ok value, after)) : condition

variable {reading : Reading α} {condition other : Prop} {result : α → Shelf → Prop}

theorem Meets.of_ok (h : Meets disk now reading condition result) {value : α}
    (hrun : reading disk now = (.ok value, after)) : result value after := by
  obtain ⟨found, last, hfound, hresult⟩ := h.succeeds (h.needs hrun)
  obtain ⟨rfl, rfl⟩ : found = value ∧ last = after := by
    cases hfound.symm.trans hrun
    exact ⟨rfl, rfl⟩
  exact hresult

theorem Meets.isOk_iff (h : Meets disk now reading condition result) :
    (reading disk now).1.isOk = true ↔ condition := by
  constructor
  · intro hok
    obtain ⟨value, after, hrun⟩ := exists_of_isOk hok
    exact h.needs hrun
  · intro hcondition
    obtain ⟨value, after, hrun, -⟩ := h.succeeds hcondition
    rw [hrun]
    rfl

theorem Meets.imp {result' : α → Shelf → Prop} (h : Meets disk now reading condition result)
    (hcondition : condition ↔ other)
    (hresult : ∀ value after, result value after → result' value after) :
    Meets disk now reading other result' where
  succeeds hother := by
    obtain ⟨value, after, hrun, hvalue⟩ := h.succeeds (hcondition.mpr hother)
    exact ⟨value, after, hrun, hresult value after hvalue⟩
  needs hrun := hcondition.mp (h.needs hrun)

theorem meets_pure {value : α} (hresult : result value now) :
    Meets disk now (pure value) True result where
  succeeds _ := ⟨value, now, rfl, hresult⟩
  needs _ := trivial

theorem Meets.bind {next : α → Reading β} {final : β → Shelf → Prop}
    (hfirst : Meets disk now reading condition result)
    (hnext : ∀ value between, result value between →
      Meets disk between (next value) other final) :
    Meets disk now (reading >>= next) (condition ∧ other) final where
  succeeds := by
    rintro ⟨hcondition, hother⟩
    obtain ⟨value, between, hrun, hvalue⟩ := hfirst.succeeds hcondition
    obtain ⟨last, after, hlast, hfinal⟩ := (hnext value between hvalue).succeeds hother
    exact ⟨last, after, (bind_of_ok hrun).trans hlast, hfinal⟩
  needs hrun := by
    obtain ⟨value, between, hvalue, hlast⟩ := bind_eq_ok.mp hrun
    exact ⟨hfirst.needs hvalue, (hnext value between (hfirst.of_ok hvalue)).needs hlast⟩

/-- What is done after a reading and cannot fail. -/
theorem Meets.bind_total {next : α → Reading β} {final : β → Shelf → Prop}
    (hfirst : Meets disk now reading condition result)
    (hnext : ∀ value between, result value between →
      ∃ last after, next value disk between = (.ok last, after) ∧ final last after) :
    Meets disk now (reading >>= next) condition final := by
  have htotal : ∀ value between, result value between →
      Meets disk between (next value) True final :=
    fun value between hvalue => ⟨fun _ => hnext value between hvalue, fun _ => trivial⟩
  exact (hfirst.bind htotal).imp (and_iff_left trivial) fun _ _ hfinal => hfinal

end Reading

/-- Keys that every row has are columns. -/
theorem Frame.checkKeys_of_mem {frame : Frame} {keys : List String}
    (hkeys : ∀ key ∈ keys, ∀ row ∈ frame.rows, key ∈ row.keys) :
    frame.checkKeys keys = .ok () := by
  unfold checkKeys columns? isEmpty
  cases hrows : frame.rows with
  | nil => rfl
  | cons row rows =>
    have hrow : row ∈ frame.rows := hrows ▸ List.mem_cons_self
    have hnone : (keys.find? fun key => !frame.keys.contains key) = none := by
      apply List.find?_eq_none.mpr
      intro key hkey
      have hmem : key ∈ frame.keys :=
        List.mem_eraseDups.mpr (List.mem_flatMap.mpr ⟨row, hrow, hkeys key hkey row hrow⟩)
      rw [List.contains_iff_mem.mpr hmem]
      exact Bool.false_ne_true
    rw [List.isEmpty_cons, if_neg Bool.false_ne_true]
    dsimp only
    rw [hnone]

namespace Tracked

open Reading

variable {disk : Disk} {start now after : Shelf} {item : Tracked} {items others : List Tracked}
  {read keys : List String} {key : String} {value : Value}

/-! ## Reading a row -/

/-- The item has been read at some keys, and what was read is what its row gives at the start. -/
structure Recalls (disk : Disk) (start : Shelf) (read : List String) (item : Tracked) : Prop where
  asked (key : String) (hkey : key ∈ item.given.map Prod.fst) : key ∈ read
  given (key : String) (hkey : key ∈ read) (hslot : item.source.slots.get? key ≠ none) :
    key ∈ item.given.map Prod.fst
  value (key : String) (value : Value) (hgiven : (key, value) ∈ item.given) :
    (item.source.get? key disk start).1 = .ok (some value)

theorem recalls_fresh (disk : Disk) (start : Shelf) (row : Row) :
    (⟨row, row, []⟩ : Tracked).Recalls disk start [] where
  asked _ hkey := hkey
  given _ hkey _ := hkey
  value _ _ hgiven := absurd hgiven List.not_mem_nil

theorem Recalls.cons (h : item.Recalls disk start read)
    (hvalue : (item.source.get? key disk start).1 = .ok (some value)) :
    ({ item with given := (key, value) :: item.given } : Tracked).Recalls disk start
      (key :: read) where
  asked other := by
    rw [List.map_cons, List.mem_cons, List.mem_cons]
    exact Or.imp_right (h.asked other)
  given other hother hslot := by
    rw [List.map_cons, List.mem_cons]
    exact (List.mem_cons.mp hother).imp_right fun hread => h.given other hread hslot
  value other given hgiven := by
    rcases List.mem_cons.mp hgiven with heq | hold
    · cases heq
      exact hvalue
    · exact h.value other given hold

/-- Only what the item stands for and what it has been given count. -/
theorem Recalls.congr (h : item.Recalls disk start read) {other : Tracked}
    (hsource : other.source = item.source) (hgiven : other.given = item.given) :
    other.Recalls disk start read where
  asked key hkey := h.asked key (hgiven ▸ hkey)
  given key hkey hslot := hgiven ▸ h.given key hkey (hsource ▸ hslot)
  value key value hvalue := hsource ▸ h.value key value (hgiven ▸ hvalue)

theorem Recalls.congr_read {other : List String} (h : item.Recalls disk start read)
    (hread : ∀ key, key ∈ read ↔ key ∈ other) : item.Recalls disk start other where
  asked key hkey := (hread key).mp (h.asked key hkey)
  given key hkey := h.given key ((hread key).mpr hkey)
  value := h.value

theorem Invariant.meets_groupingValue (h : Invariant disk start now (item :: others))
    (hfaithful : start.Faithful disk) (hsteady : item.source.Steady start key) (position : Nat) :
    Meets disk now (item.row.groupingValue position key)
      (∃ value, (item.source.get? key disk start).1 = .ok (some value))
      fun value after => (item.source.get? key disk start).1 = .ok (some value) ∧
        Invariant disk start after
          ({ item with given := (key, value) :: item.given } :: others) := by
  have hsame := (h.sound item List.mem_cons_self).get?_eq_start h.later hfaithful hsteady
  constructor
  · rintro ⟨value, hvalue⟩
    rcases hget : item.row.get? key disk now with ⟨outcome, after⟩
    obtain rfl : outcome = .ok (some value) := by
      rw [hget] at hsame
      exact hsame.trans hvalue
    exact ⟨value, after, bind_of_ok hget, hvalue, h.get? hget⟩
  · intro value after hrun
    obtain ⟨found, between, hget, hfound⟩ := bind_eq_ok.mp hrun
    rw [hget] at hsame
    cases found with
    | none => cases hfound
    | some found => exact ⟨found, hsame.symm⟩

theorem Invariant.meets_readTuple (h : Invariant disk start now (item :: others))
    (hfaithful : start.Faithful disk) (hrecalls : item.Recalls disk start read)
    (hsteady : ∀ key ∈ keys, item.source.Steady start key) (position : Nat) :
    Meets disk now (keys.mapM (item.row.groupingValue position))
      (item.source.GivesAll disk start keys)
      fun tuple after => tuple = item.source.tupleAt disk start keys ∧
        ∃ moved : Tracked, moved.source = item.source ∧ moved.row = item.row ∧
          moved.Recalls disk start (keys ++ read) ∧
          Invariant disk start after (moved :: others) := by
  induction keys generalizing item now read with
  | nil =>
    apply (meets_pure _).imp (iff_of_true trivial (by simp [Row.GivesAll])) fun _ _ h => h
    exact ⟨rfl, item, rfl, rfl, hrecalls, h⟩
  | cons key keys ih =>
    obtain ⟨hkey, hkeys⟩ := List.forall_mem_cons.mp hsteady
    rw [List.mapM_cons]
    apply Meets.imp _ Row.givesAll_cons.symm fun _ _ h => h
    apply (h.meets_groupingValue hfaithful hkey position).bind
    rintro value between ⟨hvalue, hbetween⟩
    apply (ih hbetween (hrecalls.cons hvalue) hkeys).bind_total
    rintro tuple last ⟨htuple, moved, hsource, hrow, hmoved, hlast⟩
    refine ⟨_, _, rfl, ?_, moved, hsource, hrow, hmoved.congr_read fun other => ?_, hlast⟩
    · rw [Row.tupleAt_cons hvalue, htuple]
    · simp only [List.mem_append, List.mem_cons]
      rw [or_assoc, or_left_comm]

theorem Invariant.meets_grouped (h : Invariant disk start now (item :: others))
    (hfaithful : start.Faithful disk) (hrecalls : item.Recalls disk start read)
    (hsteady : ∀ key ∈ keys, item.source.Steady start key) (position : Nat) :
    Meets disk now (item.row.grouped keys position) (item.source.GivesAll disk start keys)
      fun pair after => ∃ moved : Tracked, moved.source = item.source ∧
        moved.Recalls disk start (keys ++ read) ∧
        pair = (item.source.tupleAt disk start keys, moved.row) ∧
        Invariant disk start after (moved :: others) := by
  apply (h.meets_readTuple hfaithful hrecalls hsteady position).bind_total
  rintro tuple between ⟨rfl, moved, hsource, hrow, hmoved, hbetween⟩
  obtain ⟨copy, after, hcopy, hafter⟩ := (hbetween.release moved.row).copy
  rw [hrow] at hcopy
  refine ⟨_, after, ?_, { moved with row := copy }, hsource,
    ⟨hmoved.asked, hmoved.given, hmoved.value⟩, rfl, hafter⟩
  have hrelease : item.row.release disk between = (.ok (), (item.row.release disk between).2) := rfl
  exact (bind_of_ok hrelease).trans (bind_of_ok hcopy)

/-! ## Splitting a frame -/

/-- What splitting the rows by steady fields needs to know of them. -/
structure Ready (disk : Disk) (start : Shelf) (read keys : List String) (item : Tracked) :
    Prop where
  recalls : item.Recalls disk start read
  steady (key : String) (hkey : key ∈ keys) : item.source.Steady start key

theorem Invariant.meets_groupedRows (first : Nat) (h : Invariant disk start now (items ++ others))
    (hfaithful : start.Faithful disk) (hitems : ∀ item ∈ items, item.Ready disk start read keys) :
    Meets disk now
      (((items.map Tracked.row).zipIdx first).mapM fun entry => entry.1.grouped keys entry.2)
      (∀ row ∈ items.map Tracked.source, row.GivesAll disk start keys)
      fun pairs after => ∃ moved : List Tracked,
        moved.map Tracked.source = items.map Tracked.source ∧
        (∀ item ∈ moved, item.Recalls disk start (keys ++ read)) ∧
        pairs = (moved.map fun item => (item.source.tupleAt disk start keys, item.row)) ∧
        Invariant disk start after (moved ++ others) := by
  induction items generalizing now first others with
  | nil =>
    apply (meets_pure _).imp (iff_of_true trivial (by simp)) fun _ _ h => h
    exact ⟨[], rfl, by simp, rfl, h⟩
  | cons item items ih =>
    obtain ⟨hitem, hrest⟩ := List.forall_mem_cons.mp hitems
    rw [List.map_cons, List.map_cons, List.zipIdx_cons, List.mapM_cons]
    apply Meets.imp _ List.forall_mem_cons.symm fun _ _ h => h
    apply (h.meets_grouped hfaithful hitem.recalls hitem.steady first).bind
    rintro _ between ⟨moved, hsource, hrecalls, rfl, hbetween⟩
    -- The row that has been moved now counts as one of the others.
    have haside : Invariant disk start between (items ++ moved :: others) :=
      hbetween.perm List.perm_middle
    apply (ih (first + 1) haside hrest).bind_total
    rintro _ last ⟨rest, hsources, hmore, rfl, hlast⟩
    refine ⟨_, last, rfl, moved :: rest, ?_, List.forall_mem_cons.mpr ⟨hrecalls, hmore⟩, ?_,
      hlast.perm List.perm_middle.symm⟩
    · rw [List.map_cons, hsource, hsources]
    · rw [List.map_cons, hsource]

/-- The frame that tracked rows stand in. -/
def frameOf (items : List Tracked) : Frame := ⟨items.map Tracked.row⟩

theorem Invariant.checkKeys_of_givesAll (h : Invariant disk start now (items ++ others))
    (hfaithful : start.Faithful disk) (hitems : ∀ item ∈ items, item.Ready disk start read keys)
    (hgives : ∀ row ∈ items.map Tracked.source, row.GivesAll disk start keys) :
    (frameOf items).checkKeys keys = .ok () := by
  have hcolumn : ∀ item ∈ items, ∀ key ∈ keys, key ∈ item.row.keys := by
    intro item hitem key hkey
    obtain ⟨value, hvalue⟩ := hgives item.source (List.mem_map_of_mem hitem) key hkey
    have hget := (h.sound item (List.mem_append_left _ hitem)).get?_eq_start h.later hfaithful
      ((hitems item hitem).steady key hkey)
    rw [hvalue] at hget
    by_contra hmissing
    rw [Row.get?_of_none (SortedMap.get?_eq_none_iff.mpr hmissing)] at hget
    cases hget
  apply Frame.checkKeys_of_mem
  intro key hkey row hrow
  obtain ⟨item, hitem, rfl⟩ := List.mem_map.mp hrow
  exact hcolumn item hitem key hkey

/-- The tuples by which items are put together. -/
abbrev tuple (disk : Disk) (start : Shelf) (keys : List String) (item : Tracked) : List Value :=
  item.source.tupleAt disk start keys

/-- The split of the rows of items by some keys. -/
def splitOf (disk : Disk) (start : Shelf) (keys : List String) (items : List Tracked) : Grouping :=
  .split keys ((groupWith (tuple disk start keys) items).map fun group =>
    (group.1, .whole (frameOf group.2)))

theorem splitOf_eq (disk : Disk) (start : Shelf) (keys : List String) (items : List Tracked) :
    splitOf disk start keys items =
      .split keys ((groupByTuple (items.map fun item => (tuple disk start keys item, item.row))).map
        fun group => (group.1, .whole ⟨group.2⟩)) := by
  rw [splitOf, groupByTuple_of_groupWith, List.map_map]
  rfl

/-- **A frame is split exactly if every row gives a value at every key**, by the tuples that the
rows gave at the start. -/
theorem Invariant.meets_groupBy (h : Invariant disk start now (items ++ others))
    (hfaithful : start.Faithful disk) (hitems : ∀ item ∈ items, item.Ready disk start read keys) :
    Meets disk now ((frameOf items).groupBy keys)
      (∀ row ∈ items.map Tracked.source, row.GivesAll disk start keys)
      fun grouping after => ∃ moved : List Tracked,
        moved.map Tracked.source = items.map Tracked.source ∧
        (∀ item ∈ moved, item.Recalls disk start (keys ++ read)) ∧
        grouping = splitOf disk start keys moved ∧
        Invariant disk start after (moved ++ others) := by
  have hreads := h.meets_groupedRows 0 hfaithful hitems
  constructor
  · intro hgives
    obtain ⟨_, after, hrun, moved, hsources, hrecalls, rfl, hafter⟩ := hreads.succeeds hgives
    refine ⟨_, after, ?_, moved, hsources, hrecalls, rfl, hafter⟩
    unfold Frame.groupBy
    rw [h.checkKeys_of_givesAll hfaithful hitems hgives, splitOf_eq]
    exact bind_of_ok hrun
  · intro grouping after hrun
    obtain ⟨pairs, hpairs, -⟩ := Frame.groupBy_eq_ok hrun
    exact hreads.needs hpairs

/-! ## Splitting the groups of a split -/

/-- A group of the rows that items stand for. -/
def sourcesOf (group : List Value × List Tracked) : List Value × List Row :=
  (group.1, group.2.map Tracked.source)

/-- **Splitting every group succeeds exactly if every row of every group gives a value at every
key.** -/
theorem Invariant.meets_mapGroups {groups : List (List Value × List Tracked)}
    (h : Invariant disk start now (groups.flatMap Prod.snd ++ others))
    (hfaithful : start.Faithful disk)
    (hgroups : ∀ group ∈ groups, ∀ item ∈ group.2, item.Ready disk start read keys) :
    Meets disk now
      (Grouping.mapGroups (fun frame => frame.groupBy keys)
        (groups.map fun group => (group.1, .whole (frameOf group.2))))
      (∀ row ∈ (groups.flatMap Prod.snd).map Tracked.source, row.GivesAll disk start keys)
      fun split after => ∃ moved : List (List Value × List Tracked),
        moved.map sourcesOf = groups.map sourcesOf ∧
        (∀ group ∈ moved, ∀ item ∈ group.2, item.Recalls disk start (keys ++ read)) ∧
        split = (moved.map fun group => (group.1, splitOf disk start keys group.2)) ∧
        Invariant disk start after (moved.flatMap Prod.snd ++ others) := by
  induction groups generalizing now others with
  | nil =>
    apply (meets_pure _).imp (iff_of_true trivial (by simp)) fun _ _ h => h
    exact ⟨[], rfl, by simp, rfl, h⟩
  | cons group groups ih =>
    obtain ⟨hgroup, hrest⟩ := List.forall_mem_cons.mp hgroups
    rw [List.flatMap_cons, List.append_assoc] at h
    rw [List.map_cons, Grouping.mapGroups, Grouping.mapFrames, List.flatMap_cons, List.map_append]
    apply Meets.imp _ List.forall_mem_append.symm fun _ _ h => h
    apply (h.meets_groupBy hfaithful hgroup).bind
    rintro _ between ⟨moved, hsources, hrecalls, rfl, hbetween⟩
    -- The rows of the first group now count as some of the others.
    have haside : Invariant disk start between
        (groups.flatMap Prod.snd ++ (moved ++ others)) := by
      apply hbetween.perm
      rw [← List.append_assoc, ← List.append_assoc]
      exact List.perm_append_comm.append_right others
    apply (ih haside hrest).bind_total
    rintro _ last ⟨rest, hrest, hmore, rfl, hlast⟩
    refine ⟨_, last, rfl, (group.1, moved) :: rest, ?_,
      List.forall_mem_cons.mpr ⟨hrecalls, hmore⟩, rfl, ?_⟩
    · rw [List.map_cons, List.map_cons, hrest, sourcesOf, hsources]
      rfl
    · apply hlast.perm
      rw [List.flatMap_cons, ← List.append_assoc (rest.flatMap Prod.snd)]
      exact List.perm_append_comm.append_right others

end Tracked

/-- At the start every row of a frame stands for itself. -/
theorem Frame.Owned.exists_items {disk : Disk} {before : Shelf} {frame : Frame}
    {keys : List String} (howned : frame.Owned before)
    (hsteady : ∀ row ∈ frame.rows, ∀ key ∈ keys, row.Steady before key) :
    ∃ items : List Tracked, Tracked.frameOf items = frame ∧
      items.map Tracked.source = frame.rows ∧
      (∀ item ∈ items, item.Ready disk before [] keys) ∧
      Tracked.Invariant disk before before (items ++ []) := by
  refine ⟨frame.rows.map fun row => ⟨row, row, []⟩, ?_, ?_, ?_, ?_⟩
  · rw [Tracked.frameOf, List.map_map]
    exact congrArg Frame.mk (List.map_id frame.rows)
  · rw [List.map_map]
    exact List.map_id frame.rows
  · exact List.forall_mem_map.mpr fun row hrow =>
      ⟨Tracked.recalls_fresh disk before row, hsteady row hrow⟩
  · rw [List.append_nil]
    exact howned.invariant disk

/-! ## The rows that come out -/

/-- What splitting makes of a row: the copy has the same fields, and a computed field at one of
the keys has the value that the row gave at the start. -/
structure Row.SplitTo (disk : Disk) (before after : Shelf) (keys : List String) (row copy : Row) :
    Prop where
  id : copy.id = row.id
  metrics : copy.metrics = row.metrics
  artifacts : copy.artifacts = row.artifacts
  kept (key : String) (hkey : key ∈ keys → row.cellAt? key = none) :
    Option.Rel (Slot.CopiedTo before after) (row.slots.get? key) (copy.slots.get? key)
  read (key : String) (hkey : key ∈ keys) (cell : Nat) (hcell : row.cellAt? key = some cell) :
    ∃ held value, copy.cellAt? key = some held ∧ after.settled? held = some value ∧
      (row.get? key disk before).1 = .ok (some value)

theorem Tracked.Sound.splitTo {disk : Disk} {start now : Shelf} {item : Tracked}
    {keys : List String} (h : item.Sound disk start now)
    (hrecalls : item.Recalls disk start keys) :
    item.source.SplitTo disk start now keys item.row where
  id := h.id
  metrics := h.metrics
  artifacts := h.artifacts
  kept key hkey := by
    apply h.copiedTo
    intro cell hcell hread
    rw [hkey (hrecalls.asked key hread)] at hcell
    cases hcell
  read key hkey cell hcell := by
    have hslot : item.source.slots.get? key ≠ none := by
      rw [Row.cellAt?_eq_some_iff.mp hcell]
      exact Option.some_ne_none _
    obtain ⟨⟨_, value⟩, hgiven, rfl⟩ := List.mem_map.mp (hrecalls.given key hkey hslot)
    obtain ⟨held, hheld, -⟩ := h.cell _ cell hcell
    exact ⟨held, value, hheld, h.settled _ held value hheld hgiven, hrecalls.value _ value hgiven⟩

end Logbook
