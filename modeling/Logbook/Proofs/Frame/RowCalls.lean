import Logbook.Proofs.Frame.Reduced

/-!
# Mapping row by row

Cell by cell and row by row, a mapping is called for one row at a time, with cells of this row alone
(`RowCall`).  What the calls make of a row is put together from what the row gives at the cells they
ask for (`Row.resultAt`), in whatever frame the row is.

## Strategy

Both modes go through the rows with the same reading (`Frame.apply_eq_make`): a list of calls, each
with the cells at some keys.  If the cells are steady, reading them gives what the row gives at the
start, whatever has been read before, so the calls are the same ones at any time
(`Tracked.Invariant.meets_make`).  Then rows that could be mapped in one frame can be mapped in any
other, or copies of them, and give the same results (`Tracked.Invariant.apply_of_maps`).
-/

namespace Logbook

open Reading

/-! ## The calls for a row -/

/-- A call for one row: the keys of the cells that it gets, and the fields that it makes of them. -/
structure RowCall where
  /-- The keys of the cells. -/
  keys : List String
  /-- The fields that are made of the cells. -/
  fields : List Value → Except Error (List (String × Value))

/-- The calls of a plan for each row: one for each cell, or one for all of them. -/
def Plan.rowCalls (mode : Mode) (plan : Plan) : List RowCall :=
  match mode with
  | .pointwise => (plan.mapping.inputs.zip plan.outputs).map fun pair =>
      ⟨[pair.1], fun cells => plan.pointwise (cells.headD .null) pair.2⟩
  | _ => [⟨plan.mapping.inputs, fun cells => plan.rowwise cells⟩]

/-- The calls of mappings for each row. -/
def Mapping.rowCalls (mode : Mode) (mappings : List Mapping) : List RowCall :=
  mappings.flatMap fun mapping => Plan.rowCalls mode ⟨mapping, mapping.outputKeys mode⟩

/-- Makes fields of a row, one call after the other. -/
def Row.make (calls : List RowCall) (row : Row) : Reading (List (String × Value)) := do
  let parts ← calls.mapM fun call => do call.fields (← call.keys.mapM row.cell)
  return parts.flatten

theorem Plan.keys_of_rowCalls {mode : Mode} {plan : Plan} {call : RowCall}
    (hcall : call ∈ plan.rowCalls mode) {key : String} (hkey : key ∈ call.keys) :
    key ∈ plan.mapping.inputs := by
  unfold rowCalls at hcall
  split at hcall
  · obtain ⟨pair, hpair, rfl⟩ := List.mem_map.mp hcall
    rw [List.mem_singleton.mp hkey]
    exact (List.of_mem_zip hpair).1
  · rw [List.mem_singleton.mp hcall] at hkey
    exact hkey

theorem Mapping.keys_of_rowCalls {mode : Mode} {mappings : List Mapping} {call : RowCall}
    (hcall : call ∈ rowCalls mode mappings) {key : String} (hkey : key ∈ call.keys) :
    key ∈ mappings.flatMap Mapping.inputs := by
  obtain ⟨mapping, hmapping, hplan⟩ := List.mem_flatMap.mp hcall
  exact List.mem_flatMap.mpr ⟨mapping, hmapping, Plan.keys_of_rowCalls hplan hkey⟩

/-- A plan is known from its mapping. -/
theorem Plan.rowCalls_of_checked {mode : Mode} {mappings : List Mapping} {plans : List Plan}
    (h : List.Forall₂ (fun mapping plan => plan.Checked mode mapping) mappings plans) :
    plans.flatMap (Plan.rowCalls mode) = Mapping.rowCalls mode mappings := by
  induction h with
  | nil => rfl
  | @cons mapping plan mappings plans hplan _ ih =>
    obtain ⟨rfl, houtputs, -, -⟩ := hplan
    rw [Mapping.rowCalls, List.flatMap_cons, List.flatMap_cons, ih, ← houtputs]
    rfl

/-- Going through lists of items is going through all items. -/
theorem mapM_flatMap {m : Type → Type} [Monad m] [LawfulMonad m] {α β γ : Type} (step : β → m γ)
    (parts : α → List β) (items : List α) :
    (items.flatMap parts).mapM step =
      (do return (← items.mapM fun item => (parts item).mapM step).flatten) := by
  induction items with
  | nil => simp
  | cons item items ih => simp [ih]

namespace Frame

variable {frame : Frame} {mappings : List Mapping} {mode : Mode}

theorem pointwise_eq_make (frame : Frame) (plans : List Plan) :
    frame.pointwise plans = (do
      return frame.ofRowFields
        (← frame.scan (Row.make (plans.flatMap (Plan.rowCalls .pointwise)))) : Reading Frame) := by
  have hread : Row.make (plans.flatMap (Plan.rowCalls .pointwise)) = fun row => (do
      let parts ← plans.mapM fun plan =>
        (plan.mapping.inputs.zip plan.outputs).mapM fun pair => do
          plan.pointwise (← row.cell pair.1) pair.2
      return parts.flatten.flatten : Reading (List (String × Value))) := by
    funext row
    simp [Row.make, Plan.rowCalls, mapM_flatMap, List.mapM_map, Function.comp_def]
  rw [hread]
  rfl

theorem rowwise_eq_make (frame : Frame) (plans : List Plan) :
    frame.rowwise plans = (do
      return frame.ofRowFields
        (← frame.scan (Row.make (plans.flatMap (Plan.rowCalls .rowwise)))) : Reading Frame) := by
  have hcalls : plans.flatMap (Plan.rowCalls .rowwise) = plans.map fun plan =>
      ⟨plan.mapping.inputs, fun cells => plan.rowwise cells⟩ := List.map_eq_flatMap.symm
  have hread : Row.make (plans.flatMap (Plan.rowCalls .rowwise)) = fun row => (do
      let parts ← plans.mapM fun plan => do
        plan.rowwise (← plan.mapping.inputs.mapM row.cell)
      return parts.flatten : Reading (List (String × Value))) := by
    funext row
    rw [Row.make, hcalls, List.mapM_map]
    rfl
  rw [hread]
  rfl

/-- **Both modes go through the rows with a list of calls.** -/
theorem apply_eq_make (hmode : mode = .pointwise ∨ mode = .rowwise) :
    frame.apply mappings mode = (do
      let plans ← Plan.ofMappings mode frame.columns? mappings
      return frame.ofRowFields
        (← frame.scan (Row.make (plans.flatMap (Plan.rowCalls mode)))) : Reading Frame) := by
  obtain rfl | rfl := hmode
  · simp only [apply, pointwise_eq_make]
  · simp only [apply, rowwise_eq_make]

end Frame

/-! ## What the calls make of a row -/

namespace RowCall

/-- The row can be read at the cells of the call, and the function takes what it gives there. -/
def Succeeds (disk : Disk) (shelf : Shelf) (row : Row) (call : RowCall) : Prop :=
  row.ReadsAll disk shelf call.keys ∧
    (call.fields (row.tupleAt disk shelf call.keys)).isOk = true

/-- The fields that the call makes of what the row gives; none if it fails. -/
def made (disk : Disk) (shelf : Shelf) (row : Row) (call : RowCall) : List (String × Value) :=
  (call.fields (row.tupleAt disk shelf call.keys)).toOption.getD []

end RowCall

/-- The row of results that some calls make of what a row gives. -/
def Row.resultAt (disk : Disk) (shelf : Shelf) (calls : List RowCall) (row : Row) : Row :=
  Row.ofFields row.id (calls.flatMap (RowCall.made disk shelf row))

/-- What does not read succeeds if it gives something. -/
theorem Reading.meets_liftM {α : Type} {disk : Disk} {now : Shelf} (outcome : Except Error α) :
    Meets disk now (liftM outcome : Reading α) (outcome.isOk = true)
      fun value after => outcome = .ok value ∧ after = now where
  succeeds hok := by
    cases outcome with
    | error error => cases hok
    | ok value => exact ⟨value, now, rfl, rfl, rfl⟩
  needs hrun := by
    rw [(liftM_eq_ok.mp hrun).1]
    rfl

namespace Tracked

variable {disk : Disk} {start now after : Shelf} {item : Tracked} {items others : List Tracked}
  {call : RowCall} {calls : List RowCall} {mappings : List Mapping} {mode : Mode}

theorem Invariant.meets_call (h : Invariant disk start now (item :: others))
    (hfaithful : start.Faithful disk) (hsteady : ∀ key ∈ call.keys, item.source.Steady start key) :
    Meets disk now (do call.fields (← call.keys.mapM item.row.cell) : Reading _)
      (call.Succeeds disk start item.source)
      fun part after => part = call.made disk start item.source ∧
        ∃ moved : Tracked, moved.source = item.source ∧ moved.row = item.row ∧
          Invariant disk start after (moved :: others) := by
  apply (h.meets_cells hfaithful hsteady).bind
  rintro _ between ⟨rfl, moved, hsource, hrow, -, hbetween⟩
  apply (meets_liftM _).imp Iff.rfl
  rintro part _ ⟨hpart, rfl⟩
  refine ⟨?_, moved, hsource, hrow, hbetween⟩
  rw [RowCall.made, hpart]
  rfl

/-- **What calls make of a row is what they make of the row as it was at the start.** -/
theorem Invariant.meets_make (h : Invariant disk start now (item :: others))
    (hfaithful : start.Faithful disk)
    (hsteady : ∀ call ∈ calls, ∀ key ∈ call.keys, item.source.Steady start key) :
    Meets disk now (item.row.make calls) (∀ call ∈ calls, call.Succeeds disk start item.source)
      fun fields after => fields = calls.flatMap (RowCall.made disk start item.source) ∧
        ∃ moved : Tracked, moved.source = item.source ∧ moved.row = item.row ∧
          Invariant disk start after (moved :: others) := by
  have hparts : Meets disk now
      (calls.mapM fun call => do call.fields (← call.keys.mapM item.row.cell) : Reading _)
      (∀ call ∈ calls, call.Succeeds disk start item.source)
      fun parts after => parts = calls.map (RowCall.made disk start item.source) ∧
        ∃ moved : Tracked, moved.source = item.source ∧ moved.row = item.row ∧
          Invariant disk start after (moved :: others) := by
    induction calls generalizing item now with
    | nil =>
      apply (meets_pure _).imp (iff_of_true trivial (by simp)) fun _ _ h => h
      exact ⟨rfl, item, rfl, rfl, h⟩
    | cons call calls ih =>
      obtain ⟨hcall, hcalls⟩ := List.forall_mem_cons.mp hsteady
      rw [List.mapM_cons]
      apply Meets.imp _ List.forall_mem_cons.symm fun _ _ h => h
      apply (h.meets_call hfaithful hcall).bind
      rintro _ between ⟨rfl, first, hsource, hrow, hbetween⟩
      rw [← hsource] at hcalls ⊢
      rw [← hrow]
      apply (ih hbetween hcalls).bind_total
      rintro _ last ⟨rfl, hmoved⟩
      exact ⟨_, last, rfl, rfl, hmoved⟩
  apply hparts.bind_total
  rintro _ last ⟨rfl, hmoved⟩
  exact ⟨_, last, rfl, List.flatMap_def.symm, hmoved⟩

end Tracked

/-! ## Mapping a frame -/

namespace Frame

variable {disk : Disk} {before after start : Shelf} {frame result : Frame}
  {mappings : List Mapping} {mode : Mode}

/-- The frame is empty, or every input of the mappings is one of its columns. -/
def Admits (mappings : List Mapping) (frame : Frame) : Prop :=
  frame.isEmpty = true ∨ ∀ key ∈ mappings.flatMap Mapping.inputs, key ∈ frame.keys

/-- The rows of results that mappings make of the rows of a frame. -/
def resultsAt (disk : Disk) (shelf : Shelf) (mappings : List Mapping) (mode : Mode)
    (rows : List Row) : Frame :=
  ⟨rows.map (Row.resultAt disk shelf (Mapping.rowCalls mode mappings))⟩

/-- Mappings can be planned for some columns, and succeed for each of the rows, whose inputs are
steady. -/
structure Maps (disk : Disk) (start : Shelf) (mappings : List Mapping) (mode : Mode)
    (rows : List Row) : Prop where
  planned : ∃ columns plans, Plan.ofMappings mode columns mappings = .ok plans
  steady (row : Row) (hrow : row ∈ rows) (key : String)
    (hkey : key ∈ mappings.flatMap Mapping.inputs) : row.Steady start key
  succeeds (row : Row) (hrow : row ∈ rows) (call : RowCall)
    (hcall : call ∈ Mapping.rowCalls mode mappings) : call.Succeeds disk start row

theorem Maps.of_subset {rows fewer : List Row} (h : Maps disk start mappings mode rows)
    (hsubset : fewer ⊆ rows) : Maps disk start mappings mode fewer where
  planned := h.planned
  steady row hrow := h.steady row (hsubset hrow)
  succeeds row hrow := h.succeeds row (hsubset hrow)

theorem admits_of_plans {plans : List Plan}
    (h : Plan.ofMappings mode frame.columns? mappings = .ok plans) : frame.Admits mappings := by
  unfold columns? at h
  split at h
  · next hempty => exact .inl hempty
  · exact .inr (Plan.inputs_of_ofMappings h)

theorem Admits.plans {columns : Option (List String)} {plans : List Plan}
    (h : frame.Admits mappings) (hplans : Plan.ofMappings mode columns mappings = .ok plans) :
    Plan.ofMappings mode frame.columns? mappings = .ok plans := by
  apply Plan.ofMappings_of_columns hplans
  intro names hnames
  unfold columns? at hnames
  split at hnames
  · cases hnames
  · next hrows =>
    cases hnames
    exact h.resolve_left hrows

end Frame

namespace Tracked

variable {disk : Disk} {start now after : Shelf} {items others : List Tracked}
  {mappings : List Mapping} {mode : Mode} {result : Frame}

theorem Invariant.ofRowFields_eq (h : Invariant disk start now (items ++ others)) :
    (frameOf items).ofRowFields ((items.map Tracked.source).map fun row =>
        (Mapping.rowCalls mode mappings).flatMap (RowCall.made disk start row)) =
      Frame.resultsAt disk start mappings mode (items.map Tracked.source) := by
  rw [Frame.ofRowFields, frameOf, List.map_map, List.zip_map', List.map_map, Frame.resultsAt,
    List.map_map]
  apply congrArg Frame.mk
  apply List.map_congr_left
  intro item hitem
  have hid := (h.sound item (List.mem_append_left _ hitem)).id
  simp only [Function.comp_apply, Row.resultAt, hid]

/-- **Mapping rows whose inputs are steady succeeds exactly if every call does at the start**, and
gives what the calls make of the rows then. -/
theorem Invariant.meets_apply (h : Invariant disk start now (items ++ others))
    (hfaithful : start.Faithful disk) (hmode : mode = .pointwise ∨ mode = .rowwise)
    (hsteady : ∀ row ∈ items.map Tracked.source, ∀ key ∈ mappings.flatMap Mapping.inputs,
      row.Steady start key) :
    Meets disk now ((frameOf items).apply mappings mode)
      ((Plan.ofMappings mode (frameOf items).columns? mappings).isOk = true ∧
        ∀ row ∈ items.map Tracked.source, ∀ call ∈ Mapping.rowCalls mode mappings,
          call.Succeeds disk start row)
      fun result after =>
        result = Frame.resultsAt disk start mappings mode (items.map Tracked.source) ∧
        ∃ moved : List Tracked, moved.map Tracked.source = items.map Tracked.source ∧
          moved.map Tracked.row = items.map Tracked.row ∧
          Invariant disk start after (moved ++ others) := by
  rw [Frame.apply_eq_make hmode]
  apply (meets_liftM _).bind
  rintro plans _ ⟨hplans, rfl⟩
  rw [Plan.rowCalls_of_checked (Plan.checked_of_ofMappings hplans).2]
  have hscan := Invariant.meets_scanOf (Row.make (Mapping.rowCalls mode mappings))
    (fun row => ∀ call ∈ Mapping.rowCalls mode mappings, call.Succeeds disk start row)
    (fun row => (Mapping.rowCalls mode mappings).flatMap (RowCall.made disk start row))
    (fun _ => True) (fun item hitem others now hbeside => by
      have hitemSteady := hsteady item.source (List.mem_map_of_mem hitem)
      apply (hbeside.meets_make hfaithful fun call hcall key hkey =>
        hitemSteady key (Mapping.keys_of_rowCalls hcall hkey)).imp Iff.rfl
      rintro fields after ⟨hfields, moved, hsource, hrow, hafter⟩
      exact ⟨hfields, moved, hsource, hrow, trivial, hafter⟩) h
  apply hscan.bind_total
  rintro _ after ⟨rfl, moved, hsources, hrows, -, hafter⟩
  exact ⟨_, after, rfl, h.ofRowFields_eq, moved, hsources, hrows, hafter⟩

/-- **Rows that could be mapped can be mapped at any time, in any frame that has the inputs**, and
give the same results. -/
theorem Invariant.apply_of_maps (h : Invariant disk start now (items ++ others))
    (hfaithful : start.Faithful disk) (hmode : mode = .pointwise ∨ mode = .rowwise)
    (hmaps : Frame.Maps disk start mappings mode (items.map Tracked.source))
    (hadmits : (frameOf items).Admits mappings) :
    ∃ moved after, (frameOf items).apply mappings mode disk now =
        (.ok (Frame.resultsAt disk start mappings mode (items.map Tracked.source)), after) ∧
      moved.map Tracked.source = items.map Tracked.source ∧
      moved.map Tracked.row = items.map Tracked.row ∧
      Invariant disk start after (moved ++ others) := by
  obtain ⟨columns, plans, hplans⟩ := hmaps.planned
  have hok : (Plan.ofMappings mode (frameOf items).columns? mappings).isOk = true := by
    rw [hadmits.plans hplans]
    rfl
  obtain ⟨_, after, hrun, rfl, moved, hsources, hrows, hafter⟩ :=
    (h.meets_apply hfaithful hmode hmaps.steady).succeeds ⟨hok, hmaps.succeeds⟩
  exact ⟨moved, after, hrun, hsources, hrows, hafter⟩

/-- Frames are mapped one after the other. -/
theorem Invariant.exists_applyAll {parts : List (List Tracked)}
    (h : Invariant disk start now (parts.flatten ++ others))
    (hfaithful : start.Faithful disk) (hmode : mode = .pointwise ∨ mode = .rowwise)
    (hmaps : ∀ part ∈ parts, Frame.Maps disk start mappings mode (part.map Tracked.source))
    (hadmits : ∀ part ∈ parts, (frameOf part).Admits mappings) :
    ∃ after, (parts.map frameOf).mapM (fun frame => do
        return Grouping.whole (← frame.apply mappings mode) : Frame → Reading Grouping) disk now =
      (.ok (parts.map fun part =>
        .whole (Frame.resultsAt disk start mappings mode (part.map Tracked.source))), after) := by
  induction parts generalizing now others with
  | nil => exact ⟨now, rfl⟩
  | cons part parts ih =>
    obtain ⟨hpart, hrest⟩ := List.forall_mem_cons.mp hmaps
    obtain ⟨hhere, hthere⟩ := List.forall_mem_cons.mp hadmits
    rw [List.flatten_cons, List.append_assoc] at h
    obtain ⟨moved, between, hrun, -, -, hbetween⟩ := h.apply_of_maps hfaithful hmode hpart hhere
    -- The rows of the first part now count as some of the others.
    have haside := hbetween.perm (List.perm_append_comm_assoc _ _ _)
    obtain ⟨after, hmore⟩ := ih haside hrest hthere
    refine ⟨after, ?_⟩
    rw [List.map_cons, List.mapM_cons, List.map_cons]
    exact (bind_of_ok (bind_of_ok hrun)).trans (bind_of_ok hmore)

end Tracked

/-- What it says of the rows that mapping a frame has succeeded. -/
theorem Frame.Owned.maps_of_apply {disk : Disk} {before after : Shelf} {frame result : Frame}
    {mappings : List Mapping} {mode : Mode} (howned : frame.Owned before)
    (hfaithful : before.Faithful disk) (hmode : mode = .pointwise ∨ mode = .rowwise)
    (hsteady : ∀ row ∈ frame.rows, ∀ key ∈ mappings.flatMap Mapping.inputs, row.Steady before key)
    (hrun : frame.apply mappings mode disk before = (.ok result, after)) :
    Frame.Maps disk before mappings mode frame.rows ∧ frame.Admits mappings ∧
      result = Frame.resultsAt disk before mappings mode frame.rows ∧
      ∃ items : List Tracked, items.map Tracked.source = frame.rows ∧
        Tracked.frameOf items = frame ∧ Tracked.Invariant disk before after (items ++ []) := by
  obtain ⟨items, rfl, hsources, -, hinvariant⟩ := howned.exists_items hsteady
  rw [← hsources] at hsteady ⊢
  have hmeets := hinvariant.meets_apply hfaithful hmode hsteady
  obtain ⟨hok, hsucceeds⟩ := hmeets.needs hrun
  obtain ⟨rfl, moved, hmoved, hrows, hafter⟩ := hmeets.of_ok hrun
  obtain ⟨plans, hplans⟩ : ∃ plans, Plan.ofMappings mode _ mappings = .ok plans := by
    cases hplanned : Plan.ofMappings mode (Tracked.frameOf items).columns? mappings with
    | error error =>
      rw [hplanned] at hok
      cases hok
    | ok plans => exact ⟨plans, hplanned⟩
  exact ⟨⟨⟨_, plans, hplans⟩, hsteady, hsucceeds⟩, Frame.admits_of_plans hplans, rfl, moved, hmoved,
    congrArg Frame.mk hrows, hafter⟩

end Logbook
