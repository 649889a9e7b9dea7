import Logbook.Proofs.Frame.Arranged
import Logbook.Proofs.Frame.RowCalls

/-!
# Mapping parts of a frame

Mapping cell by cell or row by row goes row by row (`Frame.AppliesByRow`).  Rows that are picked out
of a frame, left by a filter, or in a group can be mapped as soon as the inputs are columns there,
and give the results that they give in the whole frame, before this has been mapped and after it
(`Frame.appliesByRow_of_apply`).

## Strategy

Whatever is made of a frame stands for rows of it, and rows that could be mapped once can be mapped
again (`Tracked.Invariant.apply_of_maps`).  So it only has to be said which rows these are: for rows
at some positions and their copies in `Frame.Owned.exists_taken`, for a filter in
`Frame.Owned.exists_left`, and for the parts of a grouping, one after the other, in
`Tracked.SplitBy.exists_apply`.  What the filter or the grouping reads need not be steady.

The inputs of the mappings have to be, and the loaders faithful, or else the statement fails
(`Frame.exists_other_results_of_pick`): a function that is called for more rows may give other
values, and the rows before release loaders that a row shares with them.
-/

namespace Logbook

open Reading Tracked

/-! ## Rows at some positions -/

/-- Items at ascending positions are in their order. -/
theorem sublist_of_positions {α : Type} (items : List α) {positions : List Nat}
    (hpositions : positions.Pairwise (· < ·)) :
    (positions.filterMap fun position => items[position]?).Sublist items := by
  have hdrop : ∀ first, (∀ position ∈ positions, first ≤ position) →
      (positions.filterMap fun position => items[position]?).Sublist (items.drop first) := by
    induction positions with
    | nil => exact fun _ _ => List.nil_sublist _
    | cons position positions ih =>
      intro first hfirst
      obtain ⟨hposition, hrest⟩ := List.pairwise_cons.mp hpositions
      have hmore := ih hrest (position + 1) hposition
      have hbelow := List.drop_sublist_drop_left items (hfirst position List.mem_cons_self)
      refine List.Sublist.trans ?_ hbelow
      by_cases hlength : position < items.length
      · rw [List.filterMap_cons, List.getElem?_eq_getElem hlength,
          List.drop_eq_getElem_cons hlength]
        exact hmore.cons_cons _
      · rw [List.filterMap_cons, List.getElem?_eq_none (Nat.not_lt.mp hlength)]
        exact hmore.trans (List.drop_sublist_drop_left items (Nat.le_succ position))
  exact hdrop 0 fun _ _ => Nat.zero_le _

namespace Frame

/-- The rows at some positions. -/
def pick (frame : Frame) (positions : List Nat) : Frame :=
  ⟨positions.filterMap fun position => frame.rows[position]?⟩

/-- A frame has the rows of another one, or copies of them that are made now. -/
inductive TakenAt (disk : Disk) (now : Shelf) (frame : Frame) : Frame → Shelf → Prop
  | rows : TakenAt disk now frame frame now
  | copies {copied : Frame} {moment : Shelf} (hcopy : frame.copy disk now = (.ok copied, moment)) :
      TakenAt disk now frame copied moment

/-- **Mapping goes row by row**: what it gives for some rows is what it gives for these rows in the
whole frame, whether they are picked out, left by a filter, or in a group. -/
structure AppliesByRow (disk : Disk) (now : Shelf) (frame : Frame) (mappings : List Mapping)
    (mode : Mode) (result : Frame) : Prop where
  /-- Rows at ascending positions, or copies of them, give the results at these positions. -/
  picked (positions : List Nat) (hpositions : positions.Pairwise (· < ·)) (taken : Frame)
    (moment : Shelf) (htaken : TakenAt disk now (frame.pick positions) taken moment)
    (hadmits : taken.Admits mappings) :
    ∃ after, taken.apply mappings mode disk moment = (.ok (result.pick positions), after)
  /-- Mapping what a filter leaves is leaving, of the results, those of the same rows. -/
  filtered (filter : Mapping) (left : Frame) (moment : Shelf)
    (hfilter : frame.filter filter disk now = (.ok left, moment))
    (hadmits : left.Admits mappings) :
    ∃ mask after, mask.length = frame.size ∧
      (frame.rows ≠ [] →
        filter.Judges (fun row => row.Yields disk now moment) (frame.rows.zip mask)) ∧
      List.Forall₂ (Row.CarriedTo disk now moment) (kept (frame.rows.zip mask)) left.rows ∧
      left.apply mappings mode disk moment = (.ok ⟨kept (result.rows.zip mask)⟩, after)
  /-- Mapping each part of a grouping gives the results of the rows that are in the part. -/
  grouped (keys : List String) (levels : List (List String)) (grouping : Grouping) (moment : Shelf)
    (hchain : frame.groupByChain keys levels disk now = (.ok grouping, moment))
    (hadmits : ∀ part ∈ grouping.parts, part.2.Admits mappings) :
    ∃ splits mapped after, splits.map Prod.fst = keys :: levels ∧
      (∀ split ∈ splits, ∀ member ∈ frame.rows.zipIdx,
        List.Forall₂ (member.1.Gave disk now moment) split.1 (split.2 member)) ∧
      List.Forall₂ (fun part group => group.1 = part.1 ∧
          List.Forall₂ (Row.CarriedTo disk now moment) (part.2.map Prod.fst) group.2.rows)
        (partsBy splits frame.rows.zipIdx) grouping.parts ∧
      grouping.apply mappings mode disk moment = (.ok mapped, after) ∧
      (mapped.parts = (partsBy splits frame.rows.zipIdx).map fun part =>
        (part.1, result.pick (part.2.map Prod.snd))) ∧
      (mapped.parts.flatMap fun part => part.2.rows).Perm result.rows

variable {disk : Disk} {now moment : Shelf} {frame taken left : Frame} {mappings : List Mapping}
  {filter : Mapping} {mode : Mode} {rows : List Row}

theorem sublist_pick (frame : Frame) {positions : List Nat}
    (hpositions : positions.Pairwise (· < ·)) : (frame.pick positions).rows.Sublist frame.rows :=
  sublist_of_positions frame.rows hpositions

theorem pick_resultsAt (rows : List Row) (positions : List Nat) :
    (resultsAt disk now mappings mode rows).pick positions =
      resultsAt disk now mappings mode ((⟨rows⟩ : Frame).pick positions).rows := by
  rw [pick, resultsAt, resultsAt, pick, List.map_filterMap]
  simp only [List.getElem?_map]

/-- The results at the positions of some members. -/
theorem pick_members {members : List Member} (hmembers : members ⊆ rows.zipIdx) :
    (resultsAt disk now mappings mode rows).pick (members.map Prod.snd) =
      resultsAt disk now mappings mode (members.map Prod.fst) := by
  rw [pick_resultsAt]
  apply congrArg (resultsAt disk now mappings mode)
  rw [pick, List.filterMap_map]
  refine (List.filterMap_congr fun member hmember => ?_).trans
    (congrFun (List.filterMap_eq_map (f := Prod.fst)) members)
  exact List.mem_zipIdx_iff_getElem?.mp (hmembers hmember)

theorem kept_resultsAt (rows : List Row) (mask : List Bool) :
    (⟨kept ((resultsAt disk now mappings mode rows).rows.zip mask)⟩ : Frame) =
      resultsAt disk now mappings mode (kept (rows.zip mask)) := by
  rw [resultsAt, resultsAt, map_kept, List.zip_map_left]

/-- Rows stand for themselves, and copies for the rows that they are made of. -/
theorem Owned.exists_taken (howned : frame.Owned now)
    (htaken : TakenAt disk now frame taken moment) :
    ∃ items : List Tracked, frameOf items = taken ∧ items.map Tracked.source = frame.rows ∧
      Invariant disk now moment (items ++ []) := by
  let items : List Tracked := frame.rows.map fun row => ⟨row, row, []⟩
  have hsources : items.map Tracked.source = frame.rows := by
    rw [List.map_map]
    exact List.map_id frame.rows
  have hrows : items.map Tracked.row = frame.rows := by
    rw [List.map_map]
    exact List.map_id frame.rows
  have hinvariant : Invariant disk now now (items ++ []) := by
    rw [List.append_nil]
    exact howned.invariant disk
  cases htaken with
  | rows => exact ⟨items, congrArg Frame.mk hrows, hsources, hinvariant⟩
  | copies hcopy =>
    obtain ⟨copies, last, hcopies, hpure⟩ := bind_eq_ok.mp hcopy
    cases hpure
    rw [← hrows] at hcopies
    obtain ⟨moves, hmoves, rfl, hafter⟩ := hinvariant.copied hcopies
    refine ⟨moves.map fun move => { move.1 with row := move.2 }, ?_, ?_, hafter⟩
    · rw [frameOf, List.map_map]
      rfl
    · rw [← hsources, ← hmoves, List.map_map, List.map_map]
      rfl

/-- What a filter leaves stands for the rows that it has given a true value for. -/
theorem Owned.exists_left (howned : frame.Owned now)
    (hfilter : frame.filter filter disk now = (.ok left, moment)) :
    ∃ (mask : List Bool) (items : List Tracked), mask.length = frame.size ∧
      (frame.rows ≠ [] →
        filter.Judges (fun row => row.Yields disk now moment) (frame.rows.zip mask)) ∧
      frameOf items = left ∧ items.map Tracked.source = kept (frame.rows.zip mask) ∧
      Invariant disk now moment (items ++ []) := by
  -- Every item is labelled with the row that it stands for.
  let states := frame.rows.map fun row => (row, (⟨row, row, []⟩ : Tracked))
  have hrows : (states.map fun state => state.2.row) = frame.rows := by
    rw [List.map_map]
    exact List.map_id frame.rows
  have hinvariant : Invariant disk now now (states.map Prod.snd ++ []) := by
    rw [List.append_nil, List.map_map]
    exact howned.invariant disk
  have hlabel : ∀ state ∈ states, state.2.source = state.1 :=
    List.forall_mem_map.mpr fun row _ => rfl
  obtain ⟨judged, remaining, hjudged, hjudges, hlabels, hformer, hleft, hafter⟩ :=
    hinvariant.filter hrows hfilter
  let mask := judged.map Prod.snd
  have hmask : judged.map (Prod.map (fun state => state.2.source) id) = frame.rows.zip mask := by
    apply List.zip_of_prod
    · have hstates := congrArg (List.map fun state => state.2.source) hjudged
      rw [List.map_map, List.map_map] at hstates
      rw [List.map_map]
      exact hstates.trans (List.map_id frame.rows)
    · rw [List.map_map]
      rfl
  have hsource : ∀ state ∈ remaining, state.2.source = state.1 := by
    intro state hstate
    obtain ⟨former, hmem, heq, hgoes⟩ := hformer state hstate
    rw [hgoes.source, hlabel former hmem, heq]
  refine ⟨mask, remaining.map Prod.snd, ?_, fun hsome => ?_, ?_, ?_, hafter⟩
  · rw [List.length_map, ← List.length_map Prod.fst, hjudged, List.length_map, size]
  · rw [← hmask]
    exact (hjudges fun hnone => hsome (List.map_eq_nil_iff.mp hnone)).map
  · rw [frameOf, List.map_map]
    exact congrArg Frame.mk hleft
  · rw [← hmask, ← map_kept, List.map_map]
    refine (List.map_congr_left hsource).trans (hlabels.trans ?_)
    refine List.map_congr_left fun state hstate => (hlabel state ?_).symm
    exact hjudged ▸ (kept_sublist judged).subset hstate

end Frame

/-! ## Mapping the parts of a grouping -/

namespace Tracked

variable {disk : Disk} {start now : Shelf} {members : List Member} {splits : List Split}
  {parts : List Part} {grouping : Grouping} {mappings : List Mapping} {mode : Mode}

theorem SplitBy.sources (h : SplitBy disk start now members splits parts grouping) {part : Part}
    (hpart : part ∈ parts) :
    (part.2.map Prod.snd).map Tracked.source = (part.2.map Prod.fst).map Prod.fst := by
  rw [List.map_map]
  exact sources_of_stands (h.stands part hpart)

/-- In each part there are copies of its members. -/
theorem SplitBy.forall₂_carriedTo (h : SplitBy disk start now members splits parts grouping) :
    List.Forall₂ (fun part group => group.1 = part.1 ∧
        List.Forall₂ (Row.CarriedTo disk start now) (part.2.map Prod.fst) group.2.rows)
      (partsBy splits members) grouping.parts := by
  rw [← h.labels, h.frames, List.forall₂_map_left_iff, List.forall₂_map_right_iff,
    List.forall₂_same]
  intro part hpart
  refine ⟨rfl, ?_⟩
  rw [← h.sources hpart, frameOf, List.forall₂_map_left_iff, List.forall₂_map_right_iff,
    List.forall₂_same]
  intro item hitem
  exact (h.invariant.sound item (List.mem_flatMap.mpr ⟨part, hpart, hitem⟩)).carriedTo

/-- **If the members can be mapped, so can each part**, with the results of the members in it. -/
theorem SplitBy.exists_apply (h : SplitBy disk start now members splits parts grouping)
    (hfaithful : start.Faithful disk) (hmode : mode = .pointwise ∨ mode = .rowwise)
    (hmaps : Frame.Maps disk start mappings mode (members.map Prod.fst))
    (hadmits : ∀ part ∈ grouping.parts, part.2.Admits mappings) :
    ∃ mapped after, grouping.apply mappings mode disk now = (.ok mapped, after) ∧
      mapped.parts = (partsBy splits members).map fun part =>
        (part.1, Frame.resultsAt disk start mappings mode (part.2.map Prod.fst)) := by
  have hparts : ∀ part ∈ parts,
      Frame.Maps disk start mappings mode ((part.2.map Prod.snd).map Tracked.source) := by
    intro part hpart
    rw [h.sources hpart]
    refine hmaps.of_subset (List.map_subset Prod.fst fun member hmember => ?_)
    exact h.perm.subset (List.mem_flatMap.mpr ⟨part, hpart, hmember⟩)
  rw [h.frames] at hadmits
  have hinvariant := h.invariant
  rw [← List.append_nil (parts.flatMap _), List.flatMap_def] at hinvariant
  obtain ⟨after, hmade⟩ := hinvariant.exists_applyAll hfaithful hmode
    (List.forall_mem_map.mpr hparts)
    (List.forall_mem_map.mpr fun part hpart => hadmits _ (List.mem_map_of_mem hpart))
  have hframes : (parts.map fun part => part.2.map Prod.snd).map frameOf =
      grouping.parts.map Prod.snd := by
    rw [h.frames, List.map_map, List.map_map]
    rfl
  rw [hframes] at hmade
  obtain ⟨mapped, hmapped⟩ := Grouping.exists_mapFrames hmade
  obtain ⟨made, hsame, hreplaced⟩ := Grouping.parts_mapFrames hmapped
  cases hmade.symm.trans hsame
  refine ⟨mapped, after, hmapped, ?_⟩
  rw [hreplaced, Grouping.replaced, h.frames, ← h.labels, List.map_map, List.zip_map',
    List.flatMap_map, List.map_map]
  refine Grouping.flatMap_parts_of_whole fun part hpart => ?_
  exact congrArg (fun rows => Grouping.whole (Frame.resultsAt disk start mappings mode rows))
    (h.sources hpart)

end Tracked

/-! ## Picking rows, filtering and grouping -/

namespace Frame

variable {disk : Disk} {before after now moment : Shelf} {frame result taken left : Frame}
  {mappings : List Mapping} {filter : Mapping} {mode : Mode}

section Results

variable (howned : frame.Owned now) (hfaithful : now.Faithful disk)
  (hmode : mode = .pointwise ∨ mode = .rowwise)
  (hmaps : Maps disk now mappings mode frame.rows)

include howned hfaithful hmode hmaps

theorem Maps.picked {positions : List Nat} (hpositions : positions.Pairwise (· < ·))
    (htaken : TakenAt disk now (frame.pick positions) taken moment)
    (hadmits : taken.Admits mappings) :
    ∃ after, taken.apply mappings mode disk moment =
      (.ok ((resultsAt disk now mappings mode frame.rows).pick positions), after) := by
  have hsublist := sublist_pick frame hpositions
  obtain ⟨items, rfl, hsources, hinvariant⟩ := (howned.sublist hsublist).exists_taken htaken
  have hitems : Maps disk now mappings mode (items.map Tracked.source) :=
    hmaps.of_subset (hsources ▸ hsublist.subset)
  obtain ⟨-, after, hrun, -⟩ := hinvariant.apply_of_maps hfaithful hmode hitems hadmits
  rw [hsources] at hrun
  rw [pick_resultsAt]
  exact ⟨after, hrun⟩

theorem Maps.filtered (hfilter : frame.filter filter disk now = (.ok left, moment))
    (hadmits : left.Admits mappings) :
    ∃ mask after, mask.length = frame.size ∧
      (frame.rows ≠ [] →
        filter.Judges (fun row => row.Yields disk now moment) (frame.rows.zip mask)) ∧
      List.Forall₂ (Row.CarriedTo disk now moment) (kept (frame.rows.zip mask)) left.rows ∧
      left.apply mappings mode disk moment =
        (.ok ⟨kept ((resultsAt disk now mappings mode frame.rows).rows.zip mask)⟩, after) := by
  obtain ⟨mask, items, hlength, hjudges, rfl, hsources, hafter⟩ := howned.exists_left hfilter
  have hsublist := kept_sublist (frame.rows.zip mask)
  rw [List.map_fst_zip (Nat.le_of_eq hlength.symm)] at hsublist
  have hitems : Maps disk now mappings mode (items.map Tracked.source) :=
    hmaps.of_subset (hsources ▸ hsublist.subset)
  obtain ⟨-, after, hrun, -⟩ := hafter.apply_of_maps hfaithful hmode hitems hadmits
  rw [hsources, ← kept_resultsAt] at hrun
  refine ⟨mask, after, hlength, hjudges, ?_, hrun⟩
  rw [← hsources, frameOf, List.forall₂_map_left_iff, List.forall₂_map_right_iff, List.forall₂_same]
  exact fun item hitem => (hafter.sound item (List.mem_append_left _ hitem)).carriedTo

theorem Maps.grouped {keys : List String} {levels : List (List String)} {grouping : Grouping}
    (hchain : frame.groupByChain keys levels disk now = (.ok grouping, moment))
    (hadmits : ∀ part ∈ grouping.parts, part.2.Admits mappings) :
    ∃ splits mapped after, splits.map Prod.fst = keys :: levels ∧
      (∀ split ∈ splits, ∀ member ∈ frame.rows.zipIdx,
        List.Forall₂ (member.1.Gave disk now moment) split.1 (split.2 member)) ∧
      List.Forall₂ (fun part group => group.1 = part.1 ∧
          List.Forall₂ (Row.CarriedTo disk now moment) (part.2.map Prod.fst) group.2.rows)
        (partsBy splits frame.rows.zipIdx) grouping.parts ∧
      grouping.apply mappings mode disk moment = (.ok mapped, after) ∧
      (mapped.parts = (partsBy splits frame.rows.zipIdx).map fun part =>
        (part.1, (resultsAt disk now mappings mode frame.rows).pick (part.2.map Prod.snd))) ∧
      (mapped.parts.flatMap fun part => part.2.rows).Perm
        (resultsAt disk now mappings mode frame.rows).rows := by
  obtain ⟨splits, parts, hkeys, hsplit⟩ := howned.splitBy hchain
  have hmembers : Maps disk now mappings mode (frame.rows.zipIdx.map Prod.fst) := by
    rwa [List.zipIdx_map_fst]
  obtain ⟨mapped, after, hrun, hparts⟩ := hsplit.exists_apply hfaithful hmode hmembers hadmits
  refine ⟨splits, mapped, after, hkeys, fun split hs member hm => hsplit.gave hs hm,
    hsplit.forall₂_carriedTo, hrun, ?_, ?_⟩
  · rw [hparts]
    refine List.map_congr_left fun part hpart => congrArg (Prod.mk part.1) ?_
    refine (pick_members fun member hmember => ?_).symm
    exact (partsBy_perm splits frame.rows.zipIdx).subset
      (List.mem_flatMap.mpr ⟨part, hpart, hmember⟩)
  · have hperm := ((partsBy_perm splits frame.rows.zipIdx).map Prod.fst).map
      (Row.resultAt disk now (Mapping.rowCalls mode mappings))
    rw [List.zipIdx_map_fst, List.map_flatMap, List.map_flatMap] at hperm
    rw [hparts, List.flatMap_map]
    exact hperm

theorem Maps.appliesByRow : frame.AppliesByRow disk now mappings mode
    (resultsAt disk now mappings mode frame.rows) where
  picked _ hpositions _ _ := hmaps.picked howned hfaithful hmode hpositions
  filtered _ _ _ := hmaps.filtered howned hfaithful hmode
  grouped _ _ _ _ := hmaps.grouped howned hfaithful hmode

end Results

/-- **Mapping cell by cell or row by row goes row by row**, before it has been done and after it. -/
theorem appliesByRow_of_apply (howned : frame.Owned before) (hfaithful : before.Faithful disk)
    (hmode : mode = .pointwise ∨ mode = .rowwise)
    (hsteady : ∀ row ∈ frame.rows, ∀ key ∈ mappings.flatMap Mapping.inputs, row.Steady before key)
    (hrun : frame.apply mappings mode disk before = (.ok result, after)) :
    frame.AppliesByRow disk before mappings mode result ∧
      frame.AppliesByRow disk after mappings mode result := by
  obtain ⟨hmaps, hadmits, rfl, items, hsources, rfl, hafter⟩ :=
    howned.maps_of_apply hfaithful hmode hsteady hrun
  refine ⟨hmaps.appliesByRow howned hfaithful hmode, ?_⟩
  -- Mapping has read fields, but the rows give what they gave, and so the same results.
  have hlater := hafter.later
  have hownedAfter : (frameOf items).Owned after := by
    rw [List.append_nil] at hafter
    exact hafter.owned
  have hsteadyAfter : ∀ row ∈ (frameOf items).rows, ∀ key ∈ mappings.flatMap Mapping.inputs,
      row.Steady after key := by
    refine List.forall_mem_map.mpr fun item hitem key hkey => ?_
    have hsource := hsteady item.source (hsources ▸ List.mem_map_of_mem hitem) key hkey
    exact (hafter.sound item (List.mem_append_left _ hitem)).steady_row hlater hsource
  obtain ⟨-, last, hagain, -⟩ :=
    hafter.apply_of_maps hfaithful hmode (hsources ▸ hmaps) hadmits
  obtain ⟨hmapsAfter, -, hresults, -⟩ :=
    hownedAfter.maps_of_apply (hlater.faithful hfaithful) hmode hsteadyAfter hagain
  rw [hsources] at hresults
  rw [hresults]
  exact hmapsAfter.appliesByRow hownedAfter (hlater.faithful hfaithful) hmode

/-- Three rows, one of them with a computed field: two of them are picked out. -/
theorem appliesByRow_of_three_rows :
    let plain := [
      Row.ofFields (some 1) [("config.lr", .int 1)],
      Row.ofFields (some 2) [("config.lr", .int 2), ("note", .null)],
      Row.ofFields (some 3) [("config.lr", .int 1)]]
    let start := Shelf.addComputed (fun _ key => .ok (.str key)) {}
    let frame : Frame := ⟨plain.modifyHead fun row => row.insert "note" (.computed start.1)⟩
    let same : Mapping := ⟨"same", ["config.lr", "note"], none, .ok⟩
    let disk := Disk.empty ⟨"/runs"⟩
    frame.Owned start.2 ∧ start.2.Faithful disk ∧
      (∀ row ∈ frame.rows, ∀ key ∈ [same].flatMap Mapping.inputs, row.Steady start.2 key) ∧
      ∃ result after, frame.apply [same] .pointwise disk start.2 = (.ok result, after) ∧
        frame.AppliesByRow disk start.2 [same] .pointwise result ∧
        frame.AppliesByRow disk after [same] .pointwise result ∧
        ∃ later, (frame.pick [0, 2]).apply [same] .pointwise disk start.2 =
          (.ok (result.pick [0, 2]), later) := by
  intro plain start frame same disk
  have howned : frame.Owned start.2 := by
    refine Owned.insert_computed_head (owned_of_plain (fun row hrow key => ?_) {}) "note" _
    simp only [List.mem_cons, List.not_mem_nil, or_false] at hrow
    obtain rfl | rfl | rfl := hrow <;> exact Row.cellAt?_ofFields _ _ key
  have hfaithful : start.2.Faithful disk := (Shelf.faithful_empty disk).addComputed _
  have hsteady : ∀ row ∈ frame.rows, ∀ key ∈ [same].flatMap Mapping.inputs,
      row.Steady start.2 key := by
    intro row _ key _ cell source state _ _ hstate calls others
    obtain rfl := Array.mem_singleton.mp (Array.mem_of_getElem? hstate)
    rfl
  obtain ⟨result, after, hrun⟩ := Reading.exists_of_isOk
    (by decide +kernel : (frame.apply [same] .pointwise disk start.2).1.isOk)
  obtain ⟨hbefore, hafter⟩ :=
    appliesByRow_of_apply howned hfaithful (.inl rfl) hsteady hrun
  have hadmits : (frame.pick [0, 2]).Admits [same] := .inr (by decide +kernel)
  exact ⟨howned, hfaithful, hsteady, result, after, hrun, hbefore, hafter,
    hbefore.picked [0, 2] (by decide) _ _ .rows hadmits⟩

theorem exists_results_of_seen {positions : List Nat} {shelf : Shelf}
    (h : ((frame.apply mappings mode disk before).1.toOption.bind fun result =>
      ((frame.pick positions).apply mappings mode disk before).1.toOption.map fun picked =>
        picked.same shelf (result.pick positions)) = some false) :
    ∃ result after picked later,
      frame.apply mappings mode disk before = (.ok result, after) ∧
      (frame.pick positions).apply mappings mode disk before = (.ok picked, later) ∧
      picked.same shelf (result.pick positions) = false := by
  obtain ⟨result, hresult, hrest⟩ := Option.bind_eq_some_iff.mp h
  obtain ⟨picked, hpicked, hsame⟩ := Option.map_eq_some_iff.mp hrest
  exact ⟨result, _, picked, _, Prod.ext (Outcome.eq_ok_of_toOption hresult) rfl,
    Prod.ext (Outcome.eq_ok_of_toOption hpicked) rfl, hsame⟩

/-- A function that counts its calls, shared by two rows, gives the second one another value when
that is mapped alone; and a loader that holds a log whose file has changed gives it the series from
before, because nothing has released it. -/
theorem exists_other_results_of_pick :
    let same (key : String) : Mapping := ⟨"same", [key], none, .ok⟩
    let rate (value : Int64) : Row := Row.ofFields none [("config.lr", .int value)]
    let counting : Frame := ⟨[(rate 1, 0), (rate 2, 1)].map fun entry =>
      entry.1.insert "note" (.computed entry.2)⟩
    let counter : Shelf :=
      { sources := #[⟨fun calls _ => .ok (.int (Int64.ofNat calls)), 0⟩]
        cells := #[⟨0, none⟩, ⟨0, none⟩] }
    let logged : Frame := ⟨[
      { id := some 1, slots := SortedMap.ofList [("train.rate", .value .null)], metrics := [0] },
      { id := some 1, slots := SortedMap.ofList [("train.rate", .metric 0)], metrics := [0] }]⟩
    let stale : Shelf :=
      { metrics := #[{ MetricLoader.ofRun ⟨"/runs/1"⟩ "train" with
          loaded := some (SortedMap.ofList [("train.loss", .list [.int 1]),
            ("train.rate", .list [.int 2])])
          complete := true
          requested := ["train.loss"]
          touched := true }] }
    let empty := Disk.empty ⟨"/runs"⟩
    let disk : Disk := ⟨⟨"/runs"⟩, .folder [("1", .folder [("metrics", .folder [
      ("train.json", .file (.text "\x7b\"loss\": 3, \"rate\": 4\x7d\n"))])])]⟩
    (counting.Owned counter ∧ counter.Faithful empty ∧
      (counting.pick [1]).Admits [same "note"] ∧ ∃ result after picked later,
        counting.apply [same "note"] .pointwise empty counter = (.ok result, after) ∧
        (counting.pick [1]).apply [same "note"] .pointwise empty counter = (.ok picked, later) ∧
        picked.same counter (result.pick [1]) = false) ∧
    logged.Owned stale ∧
      (∀ row ∈ logged.rows, ∀ key ∈ ["train.rate"], row.Steady stale key) ∧
      (logged.pick [1]).Admits [same "train.rate"] ∧ ∃ result after picked later,
        logged.apply [same "train.rate"] .rowwise disk stale = (.ok result, after) ∧
        (logged.pick [1]).apply [same "train.rate"] .rowwise disk stale = (.ok picked, later) ∧
        picked.same stale (result.pick [1]) = false := by
  intro same rate counting counter logged stale empty disk
  have hplain : ∀ row ∈ logged.rows, ∀ key, row.cellAt? key = none := by
    intro row hrow key
    apply Option.eq_none_iff_forall_ne_some.mpr
    intro cell hcell
    rcases List.mem_pair.mp hrow with rfl | rfl
    · have hslot := SortedMap.mem_of_get?_ofList (Row.cellAt?_eq_some_iff.mp hcell)
      simp at hslot
    · have hslot := SortedMap.mem_of_get?_ofList (Row.cellAt?_eq_some_iff.mp hcell)
      simp at hslot
  refine ⟨⟨?owned, ?faithful, .inr (by decide +kernel), exists_results_of_seen (by decide +kernel)⟩,
    owned_of_plain hplain stale, ?steady, .inr (by decide +kernel),
    exists_results_of_seen (by decide +kernel)⟩
  case owned =>
    apply owned_of_insert_computed
    · simp only [List.forall_mem_cons, List.not_mem_nil, false_implies, implies_true, and_true]
      exact ⟨Row.cellAt?_ofFields _ _, Row.cellAt?_ofFields _ _⟩
    · simp [counter]
    · simp
  case faithful =>
    exact ⟨(Shelf.faithful_empty empty).metrics, (Shelf.faithful_empty empty).artifacts⟩
  case steady => exact fun row hrow key _ => Row.steady_of_plain (hplain row hrow key)

end Frame

end Logbook
