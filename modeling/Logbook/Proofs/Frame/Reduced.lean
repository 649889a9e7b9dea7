import Logbook.Proofs.Frame.Chain
import Logbook.Proofs.Frame.Outcomes

/-!
# Aggregating the groups of a frame

Each part of a frame that has been split is aggregated to one row.  Ungrouping these rows writes
the values of the part into each of them, over an output of the same key, so that the frame has
one row for each tuple, in the order in which the tuples first occur
(`Frame.aggregate_groups_spec`).

## Strategy

What the splits do is in `Frame.Owned.splitBy`: in each part there is a copy of each member.
Aggregating the parts reads them one after the other (`Tracked.Invariant.mapParts`), and makes a
row of values for each, beside all copies that are still to be read
(`Tracked.Invariant.aggregatedTo`).  Rows of values need no copies when they are ungrouped
(`Grouping.ungroup_of_plain`).

A part is aggregated as its copies are then.  Only if the fields are steady and the loaders are
faithful is it all the same whether the rows have been split before: the tuples are what the rows
gave at the start, and the row of a part is the one that aggregating its rows by themselves gives
(`Tracked.Invariant.exists_aggregate`).
-/

namespace Logbook

open Reading

/-! ## Aggregating one frame -/

namespace Frame

variable {disk : Disk} {before after : Shelf} {frame other result : Frame}
  {mappings : List Mapping}

/-- What aggregating does: it plans, reads the inputs of each row, and calls the mappings. -/
theorem aggregate_eq_ok :
    frame.aggregate mappings disk before = (.ok result, after) ↔
      ∃ plans cells parts, Plan.ofMappings .columnwise frame.columns? mappings = .ok plans ∧
        frame.scan (fun row => (inputsOf plans).mapM row.cell) disk before = (.ok cells, after) ∧
        plans.mapM (Plan.columnwise (columnIn (inputsOf plans) cells)) = .ok parts ∧
        result = single parts.flatten := by
  constructor
  · intro hrun
    obtain ⟨plans, planned, hplanned, hrest⟩ := bind_eq_ok.mp hrun
    obtain ⟨hplans, rfl⟩ := liftM_eq_ok.mp hplanned
    obtain ⟨outputs, between, houtputs, hpure⟩ := bind_eq_ok.mp hrest
    cases hpure
    obtain ⟨column, gathered, hgather, hrest⟩ := bind_eq_ok.mp houtputs
    obtain ⟨parts, last, hgiven, hpure⟩ := bind_eq_ok.mp hrest
    cases hpure
    obtain ⟨hparts, rfl⟩ := liftM_eq_ok.mp hgiven
    obtain ⟨cells, scanned, hscan, hpure⟩ := bind_eq_ok.mp hgather
    cases hpure
    exact ⟨plans, cells, parts, hplans, hscan, hparts, rfl⟩
  · rintro ⟨plans, cells, parts, hplans, hscan, hparts, rfl⟩
    have hgather : frame.gather plans disk before =
        (.ok (columnIn (inputsOf plans) cells), after) := bind_of_ok hscan
    have houtputs : frame.columnwise plans disk before = (.ok parts.flatten, after) :=
      (bind_of_ok hgather).trans (bind_of_ok (liftM_eq_ok.mpr ⟨hparts, rfl⟩))
    exact (bind_of_ok (liftM_eq_ok.mpr ⟨hplans, rfl⟩)).trans (bind_of_ok houtputs)

/-- Rows with the same keys have the same columns. -/
theorem columns?_congr (h : frame.rows.map Row.keys = other.rows.map Row.keys) :
    frame.columns? = other.columns? := by
  have hempty : frame.isEmpty = other.isEmpty := by
    have hboth := congrArg List.isEmpty h
    rwa [List.isEmpty_map, List.isEmpty_map] at hboth
  unfold columns? keys
  rw [hempty, List.flatMap_def, List.flatMap_def, h]

end Frame

namespace Tracked

variable {disk : Disk} {start now after : Shelf} {item : Tracked} {items others : List Tracked}
  {read : List String} {mappings : List Mapping} {result : Frame}

theorem Sound.keys_eq (h : item.Sound disk start now) : item.row.keys = item.source.keys :=
  SortedMap.keys_congr h.slot_eq_none_iff

theorem Invariant.owned_sources (h : Invariant disk start now items) :
    (⟨items.map Tracked.source⟩ : Frame).Owned start where
  housed := List.forall_mem_map.mpr fun item hitem => (h.sound item hitem).sourceHoused
  apart := List.pairwise_map.mpr (h.apart.imp fun hapart => hapart.1)

theorem Invariant.columns?_eq (h : Invariant disk start now items) :
    (frameOf items).columns? = (⟨items.map Tracked.source⟩ : Frame).columns? := by
  apply Frame.columns?_congr
  rw [frameOf, List.map_map, List.map_map]
  exact List.map_congr_left fun item hitem => (h.sound item hitem).keys_eq

/-- Aggregating reads rows and makes a single row of values. -/
theorem Invariant.aggregate (h : Invariant disk start now (items ++ others))
    (hrun : (frameOf items).aggregate mappings disk now = (.ok result, after)) :
    ∃ bare moved, result = ⟨[bare]⟩ ∧ (∀ key, bare.cellAt? key = none) ∧
      Invariant disk start after (moved ++ others) := by
  obtain ⟨plans, cells, parts, -, hscan, -, rfl⟩ := Frame.aggregate_eq_ok.mp hrun
  let states := items.map fun item => ((), item)
  have hrows : (states.map fun state => state.2.row) = (frameOf items).rows := by
    rw [List.map_map]
    rfl
  have hitems : states.map Prod.snd = items := by
    rw [List.map_map]
    exact List.map_id items
  obtain ⟨moves, -, -, -, hafter⟩ := Invariant.scan hrows (hitems.symm ▸ h) hscan
  exact ⟨_, _, rfl, Row.cellAt?_ofFields none _, hafter⟩

/-- **Aggregating rows whose inputs are steady gives what it gives at the start.** -/
theorem Invariant.exists_aggregate (h : Invariant disk start now (items ++ others))
    (hfaithful : start.Faithful disk)
    (hready : ∀ item ∈ items, item.Ready disk start read (mappings.flatMap Mapping.inputs))
    (hrun : (frameOf items).aggregate mappings disk now = (.ok result, after)) :
    ∃ later, (⟨items.map Tracked.source⟩ : Frame).aggregate mappings disk start =
      (.ok result, later) := by
  obtain ⟨plans, cells, parts, hplans, hscan, hparts, rfl⟩ := Frame.aggregate_eq_ok.mp hrun
  have hhere := h.sublist (List.sublist_append_left items others)
  have hinputs : ∀ key ∈ Frame.inputsOf plans, key ∈ mappings.flatMap Mapping.inputs := by
    intro key hkey
    rw [← Plan.inputs_of_checked (Plan.checked_of_ofMappings hplans).2]
    exact List.mem_eraseDups.mp hkey
  have hscanReady : ∀ item ∈ items, item.Ready disk start read (Frame.inputsOf plans) :=
    fun item hitem => ⟨(hready item hitem).recalls,
      fun key hkey => (hready item hitem).steady key (hinputs key hkey)⟩
  have hnow := h.meets_scan hfaithful hscanReady
  obtain ⟨moved, hmoved, -, -, rfl, -⟩ := hnow.of_ok hscan
  -- Scanning the rows themselves at the start gives the same cells.
  have hstart := hhere.owned_sources.meets_scan hfaithful
    (List.forall_mem_map.mpr fun item hitem => (hscanReady item hitem).steady)
  obtain ⟨cells, later, hscanned, rfl⟩ := hstart.succeeds (hnow.needs hscan)
  have hcells : (items.map Tracked.source).map (Row.tupleAt disk start (Frame.inputsOf plans)) =
      moved.map (tuple disk start (Frame.inputsOf plans)) := by
    rw [← hmoved, List.map_map]
    rfl
  rw [hcells] at hscanned
  rw [hhere.columns?_eq] at hplans
  exact ⟨later, Frame.aggregate_eq_ok.mpr ⟨plans, _, parts, hplans, hscanned, hparts, rfl⟩⟩

end Tracked

/-! ## Rows of values -/

/-- A row with the fields of another one, into which values have been written. -/
structure Row.WrittenTo (fields : List (String × Value)) (bare row : Row) : Prop where
  id : row.id = bare.id
  metrics : row.metrics = bare.metrics
  artifacts : row.artifacts = bare.artifacts
  holds : row.Holds fields
  other (key : String) (hkey : key ∉ fields.map Prod.fst) :
    row.slots.get? key = bare.slots.get? key

theorem Row.writtenTo_update (fields : List (String × Value)) (bare : Row) :
    bare.WrittenTo fields (bare.update fields) where
  id := bare.id_update fields
  metrics := bare.metrics_update fields
  artifacts := bare.artifacts_update fields
  holds := Row.holds_update fields bare
  other _ := bare.slot_of_update

/-- Steps that change nothing. -/
theorem Reading.mapM_of_same {α : Type} {step : α → Reading α} {items : List α} {disk : Disk}
    {shelf : Shelf} (hstep : ∀ item ∈ items, step item disk shelf = (.ok item, shelf)) :
    items.mapM step disk shelf = (.ok items, shelf) := by
  induction items with
  | nil => rfl
  | cons item items ih =>
    obtain ⟨hitem, hitems⟩ := List.forall_mem_cons.mp hstep
    rw [List.mapM_cons]
    exact (bind_of_ok hitem).trans (bind_of_ok (ih hitems))

/-- Rows without computed fields need no copies. -/
theorem Grouping.ungroup_of_plain {grouping : Grouping}
    (hplain : ∀ place ∈ grouping.places, ∀ key, place.2.cellAt? key = none) (disk : Disk)
    (shelf : Shelf) :
    grouping.ungroup disk shelf =
      (.ok ⟨grouping.places.map fun place => place.2.update place.1.fields⟩, shelf) := by
  have hleaves := leaves_eq_places [] grouping
  simp only [List.append_nil] at hleaves
  obtain ⟨copied, after, hcopy, hcopies⟩ := leaves_copy grouping disk shelf
  have hsame : (grouping.leaves []).mapM copyLeaf disk shelf =
      (.ok (grouping.leaves []), shelf) := by
    apply mapM_of_same
    rw [hleaves]
    refine List.forall_mem_map.mpr fun place hplace => copyLeaf_eq_ok.mpr ⟨rfl, ?_⟩
    exact Row.copy_of_plain (hplain place hplace) disk shelf
  obtain ⟨hcopied, rfl⟩ : copied.leaves [] = grouping.leaves [] ∧ after = shelf := by
    have hboth := (hcopies []).symm.trans hsame
    exact ⟨Except.ok.inj (congrArg Prod.fst hboth), congrArg Prod.snd hboth⟩
  rw [ungroup, bind_of_ok hcopy, rows_eq_leaves, hcopied, hleaves, List.map_map]
  rfl

/-! ## Aggregating all groups -/

/-- A copy of a row after some time.  A field is as it was in the row, or it has been computed and
has the value that the row gave. -/
structure Row.CarriedTo (disk : Disk) (before after : Shelf) (row copy : Row) : Prop where
  id : copy.id = row.id
  metrics : copy.metrics = row.metrics
  artifacts : copy.artifacts = row.artifacts
  field (key : String) :
    Option.Rel (Slot.CopiedTo before after) (row.slots.get? key) (copy.slots.get? key) ∨
      ∃ cell held value, row.cellAt? key = some cell ∧ copy.cellAt? key = some held ∧
        after.settled? held = some value ∧ row.Gave disk before after key value

/-- A row of aggregated values for rows of a frame: copies of the rows have been aggregated, and
then values have been written. -/
def Frame.Aggregated (disk : Disk) (before : Shelf) (mappings : List Mapping) (rows : List Row)
    (fields : List (String × Value)) (row : Row) : Prop :=
  ∃ (group : Frame) (moment next : Shelf) (bare : Row), before.Later disk moment ∧
    List.Forall₂ (Row.CarriedTo disk before moment) rows group.rows ∧
    group.aggregate mappings disk moment = (.ok ⟨[bare]⟩, next) ∧ bare.WrittenTo fields row

namespace Tracked

variable {disk : Disk} {start now after : Shelf} {item : Tracked} {others : List Tracked}
  {read : List String} {mappings : List Mapping}

theorem Sound.carriedTo (h : item.Sound disk start now) :
    item.source.CarriedTo disk start now item.row where
  id := h.id
  metrics := h.metrics
  artifacts := h.artifacts
  field key := by
    cases hcell : item.source.cellAt? key with
    | none =>
      left
      exact h.copiedTo fun cell hsome => by cases hcell.symm.trans hsome
    | some cell =>
      by_cases hread : key ∈ item.given.map Prod.fst
      · right
        obtain ⟨⟨_, value⟩, hgiven, rfl⟩ := List.mem_map.mp hread
        obtain ⟨held, hheld, -⟩ := h.cell _ cell hcell
        exact ⟨cell, held, value, rfl, hheld, h.settled _ held value hheld hgiven,
          h.gave _ value hgiven⟩
      · left
        exact h.copiedTo fun _ _ => hread

/-- What aggregating makes of one part: a row of values.  It is what aggregating the rows as they
are at the start gives, if their fields are steady. -/
structure AggregatedTo (disk : Disk) (start : Shelf) (read : List String)
    (mappings : List Mapping) (states : List (Member × Tracked)) (made : Grouping)
    (moved : Row × List Tracked) : Prop where
  made : made = .whole ⟨[moved.1]⟩
  plain (key : String) : moved.1.cellAt? key = none
  run : ∃ moment next, start.Later disk moment ∧
    (∀ state ∈ states, state.2.Sound disk start moment) ∧
    (frameOf (states.map Prod.snd)).aggregate mappings disk moment = (.ok ⟨[moved.1]⟩, next)
  alone (hfaithful : start.Faithful disk)
    (hready : ∀ state ∈ states,
      state.2.Ready disk start read (mappings.flatMap Mapping.inputs)) :
    ∃ later, (⟨states.map fun state => state.2.source⟩ : Frame).aggregate mappings disk start =
      (.ok ⟨[moved.1]⟩, later)

theorem Invariant.aggregatedTo {states : List (Member × Tracked)} {made : Grouping}
    (h : Invariant disk start now (states.map Prod.snd ++ others))
    (hrun : (do return .whole (← (frameOf (states.map Prod.snd)).aggregate mappings) :
      Reading Grouping) disk now = (.ok made, after)) :
    ∃ moved, AggregatedTo disk start read mappings states made moved ∧
      Invariant disk start after (moved.2 ++ others) := by
  obtain ⟨result, between, hresult, hpure⟩ := bind_eq_ok.mp hrun
  cases hpure
  obtain ⟨bare, moved, rfl, hplain, hafter⟩ := h.aggregate hresult
  refine ⟨(bare, moved), ⟨rfl, hplain, ⟨now, _, h.later, ?_, hresult⟩, ?_⟩, hafter⟩
  · exact fun state hstate =>
      h.sound state.2 (List.mem_append_left _ (List.mem_map_of_mem hstate))
  · intro hfaithful hready
    have halone := h.exists_aggregate hfaithful (List.forall_mem_map.mpr hready) hresult
    rwa [List.map_map] at halone

section Members

variable {splits : List Split} {states : List (Member × Tracked)} {made : Grouping}
  {moved : Row × List Tracked}

theorem sources_of_stands (hstands : ∀ state ∈ states, Stands splits state) :
    (states.map fun state => state.2.source) = (states.map Prod.fst).map Prod.fst := by
  rw [List.map_map]
  exact List.map_congr_left fun state hstate => (hstands state hstate).source

theorem AggregatedTo.aggregated (h : AggregatedTo disk start read mappings states made moved)
    (hstands : ∀ state ∈ states, Stands splits state) (fields : List (String × Value)) :
    Frame.Aggregated disk start mappings ((states.map Prod.fst).map Prod.fst) fields
      (moved.1.update fields) := by
  obtain ⟨moment, next, hmoment, hsound, hrun⟩ := h.run
  refine ⟨_, moment, next, moved.1, hmoment, ?_, hrun, Row.writtenTo_update _ _⟩
  rw [← sources_of_stands hstands, frameOf, List.map_map, List.forall₂_map_left_iff,
    List.forall₂_map_right_iff, List.forall₂_same]
  exact fun state hstate => (hsound state hstate).carriedTo

theorem AggregatedTo.exists_alone (h : AggregatedTo disk start read mappings states made moved)
    (hstands : ∀ state ∈ states, Stands splits state) (hfaithful : start.Faithful disk)
    (hready : ∀ state ∈ states,
      state.2.Ready disk start read (mappings.flatMap Mapping.inputs)) :
    ∃ later, (⟨(states.map Prod.fst).map Prod.fst⟩ : Frame).aggregate mappings disk start =
      (.ok ⟨[moved.1]⟩, later) := by
  rw [← sources_of_stands hstands]
  exact h.alone hfaithful hready

end Members

/-- Each part of the grouping has a place with its row. -/
theorem places_of_aggregatedTo {reduced : Grouping}
    {steps : List (Part × Grouping × Row × List Tracked)}
    (hsteps : ∀ step ∈ steps, AggregatedTo disk start read mappings step.1.2 step.2.1 step.2.2)
    (hparts : reduced.parts = steps.flatMap fun step =>
      step.2.1.parts.map fun inner => (step.1.1 ++ inner.1, inner.2)) :
    reduced.places = steps.map fun step => (step.1.1, step.2.2.1) := by
  rw [Grouping.flatMap_parts_of_whole fun step hstep => (hsteps step hstep).made] at hparts
  rw [Grouping.places, Grouping.placesOf, hparts, List.flatMap_map, List.map_eq_flatMap]
  rfl

end Tracked

namespace Frame

open Tracked

variable {disk : Disk} {before grouped after : Shelf} {frame : Frame} {keys : List String}
  {levels : List (List String)} {mappings : List Mapping} {grouping reduced : Grouping}

/-- **Aggregating the groups of a frame gives one row for each tuple.** -/
theorem aggregate_groups_spec (howned : frame.Owned before)
    (hchain : frame.groupByChain keys levels disk before = (.ok grouping, grouped))
    (hreduced : grouping.aggregate mappings disk grouped = (.ok reduced, after)) :
    ∃ out splits, reduced.ungroup disk after = (.ok out, after) ∧
      splits.map Prod.fst = keys :: levels ∧
      (∀ split ∈ splits, ∀ member ∈ frame.rows.zipIdx,
        List.Forall₂ (member.1.Gave disk before grouped) split.1 (split.2 member)) ∧
      List.Forall₂ (fun part row =>
          Aggregated disk before mappings (part.2.map Prod.fst) part.1.fields row)
        (partsBy splits frame.rows.zipIdx) out.rows ∧
      (before.Faithful disk →
        (∀ row ∈ frame.rows, ∀ key ∈ (keys :: levels).flatten ++ mappings.flatMap Mapping.inputs,
          row.Steady before key) →
        List.Forall₂ (fun part row => ∃ bare later,
            (⟨part.2⟩ : Frame).aggregate mappings disk before = (.ok ⟨[bare]⟩, later) ∧
            bare.WrittenTo part.1.fields row)
          (partsBy ((keys :: levels).map fun keys => (keys, Row.tupleAt disk before keys))
            frame.rows) out.rows) := by
  obtain ⟨splits, parts, hkeys, hsplit⟩ := howned.splitBy hchain
  have hinvariant := hsplit.invariant
  rw [← List.append_nil (parts.flatMap _)] at hinvariant
  obtain ⟨steps, rfl, hsteps, hparts, -⟩ := Invariant.mapParts
    (fun states => frameOf (states.map Prod.snd)) (List.map Prod.snd) Prod.snd
    (AggregatedTo disk before (splits.flatMap Prod.fst) mappings)
    (fun _ _ _ _ _ _ hnow hmade => hnow.aggregatedTo hmade) hsplit.frames hinvariant hreduced
  have hplaces := places_of_aggregatedTo hsteps hparts
  have hplain : ∀ place ∈ reduced.places, ∀ key, place.2.cellAt? key = none := by
    rw [hplaces]
    exact List.forall_mem_map.mpr fun step hstep => (hsteps step hstep).plain
  have hstands : ∀ step ∈ steps, ∀ state ∈ step.1.2, Stands splits state :=
    fun step hstep => hsplit.stands step.1 (List.mem_map_of_mem hstep)
  refine ⟨_, splits, Grouping.ungroup_of_plain hplain disk after, hkeys,
    fun split hs member hm => hsplit.gave hs hm, ?rows, ?steady⟩
  case rows =>
    rw [← hsplit.labels, hplaces, List.map_map, List.map_map, List.forall₂_map_left_iff,
      List.forall₂_map_right_iff, List.forall₂_same]
    exact fun step hstep => (hsteps step hstep).aggregated (hstands step hstep) _
  case steady =>
    intro hfaithful hsteady
    have hmembers : ∀ member ∈ frame.rows.zipIdx,
        ∀ key ∈ splits.flatMap Prod.fst ++ mappings.flatMap Mapping.inputs,
          member.1.Steady before key := by
      intro member hmember key hkey
      rw [List.flatMap_def, hkeys] at hkey
      exact hsteady member.1 (List.fst_mem_of_mem_zipIdx hmember) key hkey
    -- The parts of the members are those of the rows by what these gave at the start.
    have hparts := hsplit.partsBy_eq hfaithful fun member hmember key hkey =>
      hmembers member hmember key (List.mem_append_left _ hkey)
    rw [hkeys, List.zipIdx_map_fst] at hparts
    rw [hparts, ← hsplit.labels, hplaces, List.map_map, List.map_map, List.map_map,
      List.forall₂_map_left_iff, List.forall₂_map_right_iff, List.forall₂_same]
    intro step hstep
    obtain ⟨later, halone⟩ := (hsteps step hstep).exists_alone (hstands step hstep) hfaithful
      (hsplit.ready hfaithful hmembers (List.mem_map_of_mem hstep))
    exact ⟨step.2.2.1, later, halone, Row.writtenTo_update _ _⟩

/-- Three rows in two groups, where an integer and a double are equal.  A computed field is read in
one of them, and one of the outputs has the key that the rows are grouped by. -/
theorem aggregate_groups_of_three_rows :
    let plain := [
      Row.ofFields (some 1) [("config.acc", .int 2), ("config.lr", .int 1)],
      Row.ofFields (some 2) [("config.acc", .int 4), ("config.lr", .int 2), ("note", .null)],
      Row.ofFields (some 3) [("config.acc", .int 6), ("config.lr", .float (.ofInt 1))]]
    let start := Shelf.addComputed (fun _ key => .ok (.str key)) {}
    let frame : Frame := ⟨plain.modifyHead fun row => row.insert "note" (.computed start.1)⟩
    let collect : Mapping :=
      ⟨"collect", ["config.acc", "note"], some ["config.acc", "config.lr"], .ok⟩
    let disk := Disk.empty ⟨"/runs"⟩
    let rate := Row.tupleAt disk start.2 ["config.lr"]
    frame.Owned start.2 ∧ start.2.Faithful disk ∧ ∃ grouping grouped reduced after out,
      frame.groupByChain ["config.lr"] [] disk start.2 = (.ok grouping, grouped) ∧
      grouping.aggregate [collect] disk grouped = (.ok reduced, after) ∧
      reduced.ungroup disk after = (.ok out, after) ∧ out.size = 2 ∧
      List.Forall₂ (fun wanted row => ∃ bare later,
          (⟨withTuple rate wanted frame.rows⟩ : Frame).aggregate [collect] disk start.2 =
            (.ok ⟨[bare]⟩, later) ∧
          bare.WrittenTo (["config.lr"].zip wanted) row)
        (firstTuples (frame.rows.map fun row => (rate row, row))) out.rows := by
  intro plain start frame collect disk rate
  have howned : frame.Owned start.2 := by
    refine Owned.insert_computed_head (owned_of_plain (fun row hrow key => ?_) {}) "note" _
    simp only [List.mem_cons, List.not_mem_nil, or_false] at hrow
    obtain rfl | rfl | rfl := hrow <;> exact Row.cellAt?_ofFields _ _ key
  have hfaithful : start.2.Faithful disk := (Shelf.faithful_empty disk).addComputed _
  have hsteady : ∀ row ∈ frame.rows, ∀ key ∈ ["config.lr", "config.acc", "note"],
      row.Steady start.2 key := by
    intro row _ key _ cell source state _ _ hstate calls others
    obtain rfl := Array.mem_singleton.mp (Array.mem_of_getElem? hstate)
    rfl
  let run : Reading Frame := do
    let grouping ← frame.groupByChain ["config.lr"] []
    let reduced ← grouping.aggregate [collect]
    reduced.ungroup
  obtain ⟨out, after, hrun, hsize⟩ := Outcome.exists_eq_ok_of_seen
    (by decide +kernel : ((run disk start.2).1.map Frame.size).toOption = some 2)
  obtain ⟨grouping, grouped, hchain, hrest⟩ := bind_eq_ok.mp hrun
  obtain ⟨reduced, last, hreduced, hout⟩ := bind_eq_ok.mp hrest
  obtain ⟨found, splits, hungroup, -, -, -, halone⟩ :=
    aggregate_groups_spec howned hchain hreduced
  obtain ⟨rfl, rfl⟩ : found = out ∧ last = after := by
    cases hungroup.symm.trans hout
    exact ⟨rfl, rfl⟩
  have hrows := halone hfaithful hsteady
  rw [List.map_singleton, partsBy_single, List.forall₂_map_left_iff] at hrows
  exact ⟨howned, hfaithful, grouping, grouped, reduced, last, found, hchain, hreduced, hungroup,
    hsize, hrows⟩

end Frame

end Logbook
