import Logbook.Proofs.Frame.Filter
import Logbook.Proofs.Frame.Parts
import Logbook.Proofs.Frame.Size
import Logbook.Proofs.Frame.Sort
import Logbook.Proofs.Mapping.Calls

/-!
# What applying mappings gives

Every output of every mapping gets a value: one for each row, or a single one
(`Frame.Applied`).  Which arguments the calls have depends on the mode.  Cell by cell and row by
row they are what the row shows at the inputs; over whole columns they are lists with the cell of
each row, the same list wherever a column is asked for.  Outputs over whole columns make a row for
each row if each of them is a list with an item for each, and a single row if none is; if some are
and others are not, nothing can be made of them (`Frame.apply_spec`).

## Strategy

Reading a cell, and going from row to row, leads to later shelves, and what a row has shown it has
shown between any two shelves around (`Row.Showed.between`).  So a list of readings shows item by
item what its readings show (`Reading.Relates.mapM`).  What becomes of the cells is a matter of
the plans alone (`Plan.gives_columnwise` and its like), and what becomes of the outputs is a matter
of their shape.
-/

namespace Logbook

/-- What holds between two shelves holds between any two around them. -/
def Shelf.Widens {α β : Type} (disk : Disk) (relation : Shelf → Shelf → α → β → Prop) : Prop :=
  ∀ before earlier later after item result, before.Later disk earlier → later.Later disk after →
    relation earlier later item result → relation before after item result

/-- A reading leads to a later shelf, and between the two its result is in the relation. -/
def Reading.Relates {α β : Type} (disk : Disk) (relation : Shelf → Shelf → α → β → Prop)
    (step : α → Reading β) : Prop :=
  ∀ item result now after, step item disk now = (.ok result, after) →
    now.Later disk after ∧ relation now after item result

/-- What each step of a list does, the list does item by item. -/
theorem Reading.Relates.mapM {α β : Type} {disk : Disk} {step : α → Reading β}
    {relation : Shelf → Shelf → α → β → Prop} (hstep : Relates disk relation step)
    (hwidens : Shelf.Widens disk relation) :
    Relates disk (fun before after => List.Forall₂ (relation before after)) fun items =>
      items.mapM step := by
  intro items
  induction items with
  | nil =>
    intro results before after hrun
    cases hrun
    exact ⟨.refl, .nil⟩
  | cons item items ih =>
    intro results before after hrun
    dsimp only at hrun
    rw [List.mapM_cons] at hrun
    obtain ⟨result, middle, hfirst, hrest⟩ := Reading.bind_eq_ok.mp hrun
    obtain ⟨rest, last, hresults, hpure⟩ := Reading.bind_eq_ok.mp hrest
    cases hpure
    obtain ⟨hmiddle, hitem⟩ := hstep _ _ _ _ hfirst
    obtain ⟨hafter, hitems⟩ := ih _ _ _ hresults
    refine ⟨hmiddle.trans hafter, .cons (hwidens _ _ _ _ _ _ .refl hafter hitem) ?_⟩
    exact hitems.imp fun other found => hwidens _ _ _ _ other found hmiddle .refl

/-- A step that reads nothing gives what the computation gives. -/
theorem Reading.liftM_eq_ok {α : Type} {outcome : Except Error α} {disk : Disk}
    {shelf after : Shelf} {value : α} :
    (liftM outcome : Reading α) disk shelf = (.ok value, after) ↔
      outcome = .ok value ∧ shelf = after := by
  have hlift : (liftM outcome : Reading α) disk shelf = (outcome, shelf) := rfl
  rw [hlift, Prod.mk.injEq]

namespace Row

variable {disk : Disk} {before after : Shelf} {row : Row} {key : String} {value : Value}

theorem Showed.between {earlier later : Shelf} (h : row.Showed disk earlier later key value)
    (hbefore : before.Later disk earlier) (hafter : later.Later disk after) :
    row.Showed disk before after key value := by
  cases h with
  | field hgave hkept =>
    obtain ⟨moment, hearlier, hlater, hvalue⟩ := hgave
    refine .field ⟨moment, hbefore.trans hearlier, hlater.trans hafter, hvalue⟩ ?_
    exact fun cell hcell => hafter.settled? (hkept cell hcell)
  | missing hslot hnull => exact .missing hslot hnull

theorem widens_showed (disk : Disk) (row : Row) :
    Shelf.Widens disk fun before after => row.Showed disk before after :=
  fun _ _ _ _ _ _ hbefore hafter h => h.between hbefore hafter

/-- A cell that is read is shown. -/
theorem relates_cell (disk : Disk) (row : Row) :
    Reading.Relates disk (fun before after => row.Showed disk before after) row.cell := by
  intro key value before after hrun
  obtain ⟨found, between, hget, hvalue⟩ := Reading.bind_eq_ok.mp hrun
  have hlater := Shelf.later_get? hget
  cases hslot : row.slots.get? key with
  | none =>
    rw [get?_of_none hslot] at hget
    cases hget
    cases hvalue
    exact ⟨hlater, .missing hslot rfl⟩
  | some slot =>
    cases found with
    | none =>
      rw [get?_of_some hslot] at hget
      rcases hread : readSlot key slot disk before with ⟨_ | _, _⟩ <;> rw [hread] at hget <;>
        cases hget
    | some found =>
      cases hvalue
      refine ⟨hlater, .field ⟨before, .refl, hlater, congrArg Prod.fst hget⟩ ?_⟩
      intro cell hcell
      exact settled?_get? hcell hget

theorem relates_cells (disk : Disk) (keys : List String) :
    Reading.Relates disk
      (fun before after (row : Row) => List.Forall₂ (row.Showed disk before after) keys)
      fun row => keys.mapM row.cell :=
  fun row => (relates_cell disk row).mapM (widens_showed disk row) keys

theorem widens_showed_all (disk : Disk) (keys : List String) :
    Shelf.Widens disk fun before after (row : Row) =>
      List.Forall₂ (row.Showed disk before after) keys :=
  fun _ _ _ _ _ _ hbefore hafter h => h.imp fun _ _ h => h.between hbefore hafter

/-- A row of results: it has the values of some fields, of fields with one key the last, and no
others. -/
structure Made (id : Option RunId) (fields : List (String × Value)) (row : Row) : Prop where
  id : row.id = id
  field (key : String) : row.slots.get? key =
    (fields.reverse.find? fun field => field.1 = key).map fun field => .value field.2
  metrics : row.metrics = []
  artifacts : row.artifacts = []

theorem made_ofFields (id : Option RunId) (fields : List (String × Value)) :
    (ofFields id fields).Made id fields where
  id := rfl
  field key := by
    rw [ofFields, SortedMap.get?_ofList, ← List.map_reverse, List.find?_map, Option.map_map]
    rfl
  metrics := rfl
  artifacts := rfl

/-- A row of results has exactly the keys of the fields. -/
theorem Made.mem_keys_iff {id : Option RunId} {fields : List (String × Value)}
    (h : row.Made id fields) : key ∈ row.keys ↔ key ∈ fields.map Prod.fst := by
  have hslot := h.field key
  rw [Row.keys, ← SortedMap.contains_iff, SortedMap.contains, hslot, Option.isSome_map,
    List.find?_isSome]
  simp

end Row

namespace Frame

variable {disk : Disk} {before after : Shelf} {frame result : Frame} {mappings : List Mapping}
  {mode : Mode}

/-! ## Reading the inputs -/

/-- Going through the rows does what is done to each of them. -/
theorem relates_scan {α : Type} {read : Row → Reading α} {relation : Shelf → Shelf → Row → α → Prop}
    (hread : Reading.Relates disk relation read) (hwidens : Shelf.Widens disk relation) :
    Reading.Relates disk
      (fun before after (frame : Frame) => List.Forall₂ (relation before after) frame.rows)
      fun frame => frame.scan read := by
  intro frame results before after hrun
  apply Reading.Relates.mapM _ hwidens frame.rows results before after hrun
  intro row result now after hrow
  obtain ⟨given, between, hgiven, hrest⟩ := Reading.bind_eq_ok.mp hrow
  obtain ⟨⟨⟩, released, hrelease, hpure⟩ := Reading.bind_eq_ok.mp hrest
  cases hpure
  have hreleased := Shelf.later_release hrelease
  obtain ⟨hlater, hrelation⟩ := hread row result now between hgiven
  exact ⟨hlater.trans hreleased, hwidens _ _ _ _ _ _ .refl hreleased hrelation⟩

/-- A column for each of some keys: a cell of each row, which is null if the row has no such
field. -/
def Columns (disk : Disk) (before after : Shelf) (frame : Frame) (keys : List String)
    (column : String → List Value) : Prop :=
  ∀ key ∈ keys,
    List.Forall₂ (fun row value => row.Showed disk before after key value) frame.rows (column key)

theorem columns_of_gather {plans : List Plan} {column : String → List Value}
    (hrun : frame.gather plans disk before = (.ok column, after)) :
    before.Later disk after ∧
      frame.Columns disk before after (plans.flatMap fun plan => plan.mapping.inputs) column := by
  obtain ⟨cells, between, hscan, hpure⟩ := Reading.bind_eq_ok.mp hrun
  cases hpure
  obtain ⟨hlater, hcells⟩ := relates_scan (Row.relates_cells disk (inputsOf plans))
    (Row.widens_showed_all disk (inputsOf plans)) frame cells before after hscan
  refine ⟨hlater, fun key hkey => ?_⟩
  have hlength := hcells.length_eq
  have hreads : ∀ read ∈ frame.rows.zip cells,
      List.Forall₂ (read.1.Showed disk before after) (inputsOf plans) read.2 :=
    fun read hread => (List.forall₂_iff_zip.mp hcells).2 hread
  have hcolumn := forall₂_columnIn (fun row => row.Showed disk before after)
    (List.mem_eraseDups.mpr hkey) (frame.rows.zip cells) hreads
  rw [List.map_snd_zip (Nat.le_of_eq hlength.symm)] at hcolumn
  have hrows : List.Forall₂ (fun row value => row.Showed disk before after key value)
      ((frame.rows.zip cells).map Prod.fst) (columnIn (inputsOf plans) cells key) :=
    List.forall₂_map_left_iff.mpr hcolumn
  rwa [List.map_fst_zip (Nat.le_of_eq hlength)] at hrows

/-! ## Cell by cell and row by row -/

/-- The fields that mappings make of a row: the arguments are what the row shows at the inputs. -/
def FieldsOf (disk : Disk) (before after : Shelf) (mode : Mode) (mappings : List Mapping)
    (row : Row) (fields : List (String × Value)) : Prop :=
  Mapping.GiveAll mode
    (fun mapping arguments => List.Forall₂ (row.Showed disk before after) mapping.inputs arguments)
    mappings fields

theorem widens_fieldsOf (disk : Disk) (mode : Mode) (mappings : List Mapping) :
    Shelf.Widens disk fun before after => FieldsOf disk before after mode mappings := by
  intro before earlier later after row fields hbefore hafter h
  apply Mapping.GiveAll.imp h
  exact fun mapping arguments h => h.imp fun _ _ h => h.between hbefore hafter

/-- What a mapping makes of a row, by a plan for it. -/
def PartOf (disk : Disk) (before after : Shelf) (mode : Mode) (row : Row) (mapping : Mapping)
    (part : List (String × Value)) : Prop :=
  ∃ arguments, List.Forall₂ (row.Showed disk before after) mapping.inputs arguments ∧
    mapping.Gives mode arguments part

/-- Plans one after the other make of a row what their mappings make of it. -/
theorem fieldsOf_of_plans {α : Type} {row : Row} {step : Plan → Reading α}
    (fields : α → List (String × Value)) {plans : List Plan}
    (hplans : List.Forall₂ (fun mapping plan => plan.Checked mode mapping) mappings plans)
    (hstep : ∀ mapping plan part now after, plan.Checked mode mapping →
      step plan disk now = (.ok part, after) →
      now.Later disk after ∧ PartOf disk now after mode row mapping (fields part))
    {parts : List α} (hrun : plans.mapM step disk before = (.ok parts, after)) :
    before.Later disk after ∧
      FieldsOf disk before after mode mappings row (parts.map fields).flatten := by
  induction hplans generalizing before parts with
  | nil =>
    cases hrun
    exact ⟨.refl, [], rfl, .nil⟩
  | @cons mapping plan mappings plans hplan _ ih =>
    rw [List.mapM_cons] at hrun
    obtain ⟨part, middle, hpart, hrest⟩ := Reading.bind_eq_ok.mp hrun
    obtain ⟨rest, last, hmore, hpure⟩ := Reading.bind_eq_ok.mp hrest
    cases hpure
    obtain ⟨hmiddle, arguments, hshown, hgives⟩ := hstep mapping plan part _ _ hplan hpart
    obtain ⟨hafter, hfields⟩ := ih hmore
    obtain ⟨found, hflatten, hparts⟩ :=
      widens_fieldsOf disk mode mappings _ _ _ _ row _ hmiddle .refl hfields
    refine ⟨hmiddle.trans hafter, fields part :: found, ?_, .cons ⟨arguments, ?_, hgives⟩ hparts⟩
    · rw [List.map_cons, List.flatten_cons, List.flatten_cons, hflatten]
    · exact hshown.imp fun _ _ h => h.between .refl hafter

theorem partOf_rowwise {row : Row} {mapping : Mapping} {plan : Plan}
    {part : List (String × Value)} (hplan : plan.Checked .rowwise mapping)
    (hrun : (do plan.rowwise (← plan.mapping.inputs.mapM row.cell) : Reading _) disk before =
      (.ok part, after)) :
    before.Later disk after ∧ PartOf disk before after .rowwise row mapping part := by
  obtain ⟨cells, between, hcells, hpart⟩ := Reading.bind_eq_ok.mp hrun
  obtain ⟨hgives, rfl⟩ := Reading.liftM_eq_ok.mp hpart
  obtain ⟨hlater, hshown⟩ := Row.relates_cells disk plan.mapping.inputs row cells _ _ hcells
  rw [hplan.same] at hshown
  exact ⟨hlater, cells, hshown, Plan.gives_rowwise hplan hgives⟩

theorem partOf_pointwise {row : Row} {mapping : Mapping} {plan : Plan}
    {parts : List (List (String × Value))} (hplan : plan.Checked .pointwise mapping)
    (hrun : ((plan.mapping.inputs.zip plan.outputs).mapM fun (input, output) => do
      plan.pointwise (← row.cell input) output : Reading _) disk before = (.ok parts, after)) :
    before.Later disk after ∧ PartOf disk before after .pointwise row mapping parts.flatten := by
  have hstep : Reading.Relates disk (fun before after (pair : String × String) part =>
      ∃ cell, row.Showed disk before after pair.1 cell ∧ plan.pointwise cell pair.2 = .ok part)
      (fun pair => do plan.pointwise (← row.cell pair.1) pair.2) := by
    intro pair part now after hread
    obtain ⟨cell, between, hcell, hgiven⟩ := Reading.bind_eq_ok.mp hread
    obtain ⟨hpart, rfl⟩ := Reading.liftM_eq_ok.mp hgiven
    obtain ⟨hlater, hshown⟩ := Row.relates_cell disk row pair.1 cell _ _ hcell
    exact ⟨hlater, cell, hshown, hpart⟩
  have hwidens : Shelf.Widens disk (fun before after (pair : String × String) part =>
      ∃ cell, row.Showed disk before after pair.1 cell ∧
        plan.pointwise cell pair.2 = .ok part) := by
    rintro _ _ _ _ pair part hbefore hafter ⟨cell, hshown, hpart⟩
    exact ⟨cell, hshown.between hbefore hafter, hpart⟩
  obtain ⟨hlater, hparts⟩ := hstep.mapM hwidens _ parts before after hrun
  exact ⟨hlater, Plan.gives_pointwise hplan hparts⟩

/-- A row of results for each row, of the same run. -/
def MadeByRow (disk : Disk) (before after : Shelf) (frame : Frame) (mappings : List Mapping)
    (mode : Mode) (result : Frame) : Prop :=
  List.Forall₂ (fun row made => ∃ fields, FieldsOf disk before after mode mappings row fields ∧
    made.Made row.id fields) frame.rows result.rows

theorem madeByRow_of_scan {read : Row → Reading (List (String × Value))}
    {fields : List (List (String × Value))}
    (hread : Reading.Relates disk (fun before after => FieldsOf disk before after mode mappings)
      read)
    (hrun : frame.scan read disk before = (.ok fields, after)) :
    frame.MadeByRow disk before after mappings mode (frame.ofRowFields fields) := by
  obtain ⟨-, hfields⟩ := relates_scan hread (widens_fieldsOf disk mode mappings) frame fields
    before after hrun
  unfold MadeByRow ofRowFields
  clear hrun
  generalize frame.rows = rows at hfields
  induction hfields with
  | nil => exact .nil
  | cons hrow _ ih => exact .cons ⟨_, hrow, Row.made_ofFields _ _⟩ ih

theorem madeByRow_of_rowwise {plans : List Plan}
    (hplans : List.Forall₂ (fun mapping plan => plan.Checked .rowwise mapping) mappings plans)
    (hrun : frame.rowwise plans disk before = (.ok result, after)) :
    frame.MadeByRow disk before after mappings .rowwise result := by
  obtain ⟨fields, between, hscan, hpure⟩ := Reading.bind_eq_ok.mp hrun
  cases hpure
  apply madeByRow_of_scan _ hscan
  intro row fields now after hread
  obtain ⟨parts, last, hparts, hpure⟩ := Reading.bind_eq_ok.mp hread
  cases hpure
  have hfields := fieldsOf_of_plans id hplans
    (fun _ _ _ _ _ hplan hpart => partOf_rowwise hplan hpart) hparts
  rwa [List.map_id] at hfields

theorem madeByRow_of_pointwise {plans : List Plan}
    (hplans : List.Forall₂ (fun mapping plan => plan.Checked .pointwise mapping) mappings plans)
    (hrun : frame.pointwise plans disk before = (.ok result, after)) :
    frame.MadeByRow disk before after mappings .pointwise result := by
  obtain ⟨fields, between, hscan, hpure⟩ := Reading.bind_eq_ok.mp hrun
  cases hpure
  apply madeByRow_of_scan _ hscan
  intro row fields now after hread
  obtain ⟨parts, last, hparts, hpure⟩ := Reading.bind_eq_ok.mp hread
  cases hpure
  have hfields := fieldsOf_of_plans List.flatten hplans
    (fun _ _ _ _ _ hplan hpart => partOf_pointwise hplan hpart) hparts
  rwa [← List.flatten_flatten] at hfields

/-! ## Whole columns -/

/-- The outputs of mappings over whole columns. -/
def outputsOf (frame : Frame) (mappings : List Mapping) (mode : Mode) :
    Reading (List (String × Value)) := do
  let plans ← Plan.ofMappings mode frame.columns? mappings
  match mode with
  | .columnwise => frame.columnwise plans
  | _ => frame.generic plans

/-- Over whole columns the outputs are all that is made of the rows. -/
theorem apply_eq_ofOutputs (hmode : mode = .columnwise ∨ mode = .generic) :
    frame.apply mappings mode =
      (do frame.ofOutputs (← frame.outputsOf mappings mode) : Reading Frame) := by
  unfold apply outputsOf
  rw [bind_assoc]
  obtain rfl | rfl := hmode <;> rfl

/-- Outputs over whole columns: wherever mappings take a column it is one list, with the cell of
each row. -/
def GivenByColumns (disk : Disk) (before after : Shelf) (frame : Frame) (mappings : List Mapping)
    (mode : Mode) (outputs : List (String × Value)) : Prop :=
  ∃ column : String → List Value,
    frame.Columns disk before after (mappings.flatMap Mapping.inputs) column ∧
    Mapping.GiveAll mode
      (fun mapping arguments => arguments = mapping.inputs.map fun key => .list (column key))
      mappings outputs

theorem givenByColumns_of_gather {plans : List Plan} {outputs : List (String × Value)}
    {give : (String → List Value) → Plan → Except Error (List (String × Value))}
    (hplans : List.Forall₂ (fun mapping plan => plan.Checked mode mapping) mappings plans)
    (hgive : ∀ column mapping plan part, plan.Checked mode mapping → give column plan = .ok part →
      mapping.Gives mode (mapping.inputs.map fun key => .list (column key)) part)
    (hrun : (do
      let column ← frame.gather plans
      let parts ← liftM (plans.mapM (give column))
      return parts.flatten : Reading _) disk before = (.ok outputs, after)) :
    frame.GivenByColumns disk before after mappings mode outputs := by
  obtain ⟨column, gathered, hgather, hrest⟩ := Reading.bind_eq_ok.mp hrun
  obtain ⟨parts, given, hgiven, hpure⟩ := Reading.bind_eq_ok.mp hrest
  cases hpure
  obtain ⟨hparts, rfl⟩ := Reading.liftM_eq_ok.mp hgiven
  obtain ⟨-, hcolumns⟩ := columns_of_gather hgather
  rw [Plan.inputs_of_checked hplans] at hcolumns
  refine ⟨column, hcolumns, parts, rfl, ?_⟩
  refine forall₂_trans ?_ hplans (Outcome.forall₂_of_mapM hparts)
  intro mapping plan part hplan hpart
  exact ⟨_, rfl, hgive column mapping plan part hplan hpart⟩

theorem givenByColumns_of_outputsOf {outputs : List (String × Value)}
    (hmode : mode = .columnwise ∨ mode = .generic)
    (hrun : frame.outputsOf mappings mode disk before = (.ok outputs, after)) :
    frame.GivenByColumns disk before after mappings mode outputs := by
  obtain ⟨plans, planned, hplanned, hrest⟩ := Reading.bind_eq_ok.mp hrun
  obtain ⟨hchecks, rfl⟩ := Reading.liftM_eq_ok.mp hplanned
  obtain ⟨-, hplans⟩ := Plan.checked_of_ofMappings hchecks
  obtain rfl | rfl := hmode
  · exact givenByColumns_of_gather hplans (fun _ _ _ _ => Plan.gives_columnwise) hrest
  · exact givenByColumns_of_gather hplans (fun _ _ _ _ => Plan.gives_generic) hrest

/-! ## The shape of the outputs -/

/-- A row for each row, of the same run, with its item of each of the lists. -/
structure SpreadTo (frame : Frame) (outputs : List (String × Value)) (result : Frame) : Prop where
  lists (output : String × Value) (houtput : output ∈ outputs) :
    Shape.HasItemFor frame.size output.2
  size : result.size = frame.size
  row (i : Nat) (row : Row) (hrow : frame.rows[i]? = some row) :
    ∃ made fields, result.rows[i]? = some made ∧ made.Made row.id fields ∧
      List.Forall₂ (fun output field => field.1 = output.1 ∧
        ∃ items, output.2 = .list items ∧ items[i]? = some field.2) outputs fields

/-- A single row, of no run, with the outputs as they are, none of them with an item for each
row. -/
structure ReducedTo (frame : Frame) (outputs : List (String × Value)) (result : Frame) : Prop where
  none_lists (output : String × Value) (houtput : output ∈ outputs) :
    ¬Shape.HasItemFor frame.size output.2
  single : ∃ made, result.rows = [made] ∧ made.Made none outputs

theorem getElem?_ofRowFields {fields : List (List (String × Value))} {i : Nat} {row : Row}
    {given : List (String × Value)} (hrow : frame.rows[i]? = some row)
    (hgiven : fields[i]? = some given) :
    (frame.ofRowFields fields).rows[i]? = some (Row.ofFields row.id given) := by
  have hpair : (frame.rows.zip fields)[i]? = some (row, given) :=
    List.getElem?_zip_eq_some.mpr ⟨hrow, hgiven⟩
  rw [ofRowFields, List.getElem?_map, hpair]
  rfl

theorem spreadTo_ofRowFields {outputs : List (String × Value)}
    (hall : ∀ output ∈ outputs, Shape.HasItemFor frame.size output.2) :
    frame.SpreadTo outputs (frame.ofRowFields (Shape.spread frame.size outputs)) where
  lists := hall
  size := by
    apply size_ofRowFields
    rw [Shape.spread, List.length_map, List.length_range]
  row i row hrow := by
    have hi : i < frame.size := (List.getElem?_eq_some_iff.mp hrow).1
    refine ⟨_, _, getElem?_ofRowFields hrow ?_, Row.made_ofFields row.id _,
      Shape.forall₂_fields hall hi⟩
    rw [Shape.spread, List.getElem?_map, List.getElem?_range hi]
    rfl

/-- What applying mappings makes of a frame: rows of results for its rows, or what the outputs over
whole columns amount to. -/
inductive Applied (disk : Disk) (before after : Shelf) (frame : Frame) (mappings : List Mapping)
    (mode : Mode) (result : Frame) : Prop
  | byRow (hmode : mode = .pointwise ∨ mode = .rowwise)
      (hrows : frame.MadeByRow disk before after mappings mode result) :
      Applied disk before after frame mappings mode result
  | byColumns (hmode : mode = .columnwise ∨ mode = .generic) (outputs : List (String × Value))
      (houtputs : frame.GivenByColumns disk before after mappings mode outputs)
      (hresult : frame.SpreadTo outputs result ∨ frame.ReducedTo outputs result) :
      Applied disk before after frame mappings mode result

theorem applied_of_apply (hrun : frame.apply mappings mode disk before = (.ok result, after)) :
    frame.Applied disk before after mappings mode result := by
  have hcolumns : mode = .columnwise ∨ mode = .generic →
      frame.Applied disk before after mappings mode result := by
    intro hmode
    rw [apply_eq_ofOutputs hmode] at hrun
    obtain ⟨outputs, between, houtputs, hrest⟩ := Reading.bind_eq_ok.mp hrun
    obtain ⟨hmade, rfl⟩ := Reading.liftM_eq_ok.mp hrest
    refine .byColumns hmode outputs (givenByColumns_of_outputsOf hmode houtputs) ?_
    unfold ofOutputs at hmade
    obtain ⟨-, hall, hshape⟩ | ⟨hnone, hshape⟩ | ⟨-, -, keys, hshape⟩ :=
      Shape.ofOutputs_cases frame.size outputs
    · rw [hshape] at hmade
      cases hmade
      exact .inl (spreadTo_ofRowFields hall)
    · rw [hshape] at hmade
      cases hmade
      exact .inr ⟨hnone, _, rfl, Row.made_ofFields none outputs⟩
    · rw [hshape] at hmade
      cases hmade
  have hrows : mode = .pointwise ∨ mode = .rowwise →
      frame.Applied disk before after mappings mode result := by
    intro hmode
    refine .byRow hmode ?_
    obtain ⟨plans, planned, hplanned, hrest⟩ := Reading.bind_eq_ok.mp hrun
    obtain ⟨hchecks, rfl⟩ := Reading.liftM_eq_ok.mp hplanned
    obtain ⟨-, hplans⟩ := Plan.checked_of_ofMappings hchecks
    obtain rfl | rfl := hmode
    · exact madeByRow_of_pointwise hplans hrest
    · exact madeByRow_of_rowwise hplans hrest
  cases mode with
  | pointwise => exact hrows (.inl rfl)
  | rowwise => exact hrows (.inr rfl)
  | columnwise => exact hcolumns (.inl rfl)
  | generic => exact hcolumns (.inr rfl)

theorem SpreadTo.exists_made {outputs : List (String × Value)} (h : frame.SpreadTo outputs result)
    {made : Row} (hmade : made ∈ result.rows) :
    ∃ row ∈ frame.rows, ∃ fields, made.Made row.id fields ∧
      fields.map Prod.fst = outputs.map Prod.fst := by
  obtain ⟨i, hi⟩ := List.mem_iff_getElem?.mp hmade
  have hlt : i < frame.rows.length := by
    rw [← show result.rows.length = frame.rows.length from h.size]
    exact (List.getElem?_eq_some_iff.mp hi).1
  obtain ⟨found, fields, hfound, hrow, hfields⟩ := h.row i _ (List.getElem?_eq_getElem hlt)
  obtain rfl : found = made := Option.some_inj.mp (hfound.symm.trans hi)
  refine ⟨_, List.getElem_mem hlt, fields, hrow, ?_⟩
  rw [← List.forall₂_eq_eq_eq, List.forall₂_map_left_iff, List.forall₂_map_right_iff]
  exact hfields.flip.imp fun _ _ h => h.1

/-- The keys of the results are the outputs of the mappings. -/
theorem Applied.mem_keys_iff (h : frame.Applied disk before after mappings mode result) {row : Row}
    (hrow : row ∈ result.rows) (key : String) :
    key ∈ row.keys ↔ ∃ mapping ∈ mappings, key ∈ mapping.outputKeys mode := by
  rw [← List.mem_flatMap]
  cases h with
  | byRow hmode hrows =>
    obtain ⟨i, hi⟩ := List.mem_iff_getElem?.mp hrow
    obtain ⟨source, -, fields, hfields, hmade⟩ := exists_getElem?_of_forall₂ hrows.flip hi
    rw [hmade.mem_keys_iff, Mapping.GiveAll.keys hfields]
  | byColumns hmode outputs houtputs hresult =>
    obtain ⟨column, -, hgiven⟩ := houtputs
    rw [← hgiven.keys]
    obtain hspread | ⟨-, made, hsingle, hmade⟩ := hresult
    · obtain ⟨source, -, fields, hmade, hkeys⟩ := hspread.exists_made hrow
      rw [hmade.mem_keys_iff, hkeys]
    · rw [hsingle] at hrow
      rw [List.mem_singleton.mp hrow, hmade.mem_keys_iff]

/-- Outputs of which some make a row for each row and others do not make nothing at all. -/
theorem apply_of_mixed {outputs : List (String × Value)}
    (hmode : mode = .columnwise ∨ mode = .generic)
    (houtputs : frame.outputsOf mappings mode disk before = (.ok outputs, after))
    (hsome : ∃ output ∈ outputs, Shape.HasItemFor frame.size output.2)
    (hother : ∃ output ∈ outputs, ¬Shape.HasItemFor frame.size output.2) :
    ∃ error, frame.apply mappings mode disk before = (.error error, after) ∧
      error.kind = .mapping := by
  obtain ⟨output, houtput, hhas⟩ := hsome
  obtain ⟨other, hmem, hnot⟩ := hother
  rw [apply_eq_ofOutputs hmode, Reading.bind_of_ok houtputs]
  obtain ⟨-, hall, -⟩ | ⟨hnone, -⟩ | ⟨-, -, keys, hshape⟩ :=
    Shape.ofOutputs_cases frame.size outputs
  · exact absurd (hall other hmem) hnot
  · exact absurd hhas (hnone output houtput)
  · refine ⟨.mixedShapes keys frame.size, ?_, rfl⟩
    show (frame.ofOutputs outputs, after) = _
    rw [ofOutputs, hshape]
    rfl

/-- **What applying mappings gives.**  If it succeeds, every output has a value, for each row or
altogether, by the calls of the mode.  Outputs over whole columns are by the calls of the mode in
any case, but if some of them make a row for each row and others do not, applying fails. -/
theorem apply_spec (frame : Frame) (mappings : List Mapping) (mode : Mode) (disk : Disk)
    (before : Shelf) :
    (∀ result after, frame.apply mappings mode disk before = (.ok result, after) →
      frame.Applied disk before after mappings mode result ∧
      ∀ row ∈ result.rows, ∀ key,
        key ∈ row.keys ↔ ∃ mapping ∈ mappings, key ∈ mapping.outputKeys mode) ∧
    ∀ outputs after, mode = .columnwise ∨ mode = .generic →
      frame.outputsOf mappings mode disk before = (.ok outputs, after) →
      frame.GivenByColumns disk before after mappings mode outputs ∧
      ((∃ output ∈ outputs, Shape.HasItemFor frame.size output.2) →
        (∃ output ∈ outputs, ¬Shape.HasItemFor frame.size output.2) →
        ∃ error, frame.apply mappings mode disk before = (.error error, after) ∧
          error.kind = .mapping) := by
  constructor
  · intro result after hrun
    have happlied := applied_of_apply hrun
    exact ⟨happlied, fun row hrow key => happlied.mem_keys_iff hrow key⟩
  · intro outputs after hmode houtputs
    refine ⟨givenByColumns_of_outputsOf hmode houtputs, fun hsome hother => ?_⟩
    exact apply_of_mixed hmode houtputs hsome hother

/-- Three inputs have two outputs each, one of which a later mapping replaces, and one row lacks an
input.  With a mapping that has a list for one output and none for the other, applying fails. -/
theorem apply_of_three_rows :
    let frame : Frame := ⟨[Row.ofFields (some 1) [("config.lr", .int 1), ("note", .str "a")],
      Row.ofFields (some 2) [("config.lr", .int 2)], Row.ofFields none [("note", .str "c")]]⟩
    let twice : Mapping := ⟨"twice", ["note", "config.lr", "note"],
      some ["a", "b", "c", "d", "b", "e"], fun arguments => .ok (arguments ++ arguments)⟩
    let kept : Mapping := ⟨"kept", ["config.lr"], some ["e"], .ok⟩
    let mixed : Mapping :=
      ⟨"mixed", ["config.lr"], some ["e", "f"], fun arguments => .ok (.null :: arguments)⟩
    let disk := Disk.empty ⟨"/runs"⟩
    (∃ result after, frame.apply [twice, kept] .columnwise disk {} = (.ok result, after) ∧
      frame.Applied disk {} after [twice, kept] .columnwise result ∧
      result.rows.map Row.keys = List.replicate 3 ["a", "b", "c", "d", "e"]) ∧
    ∃ error after, frame.apply [kept, mixed] .columnwise disk {} = (.error error, after) ∧
      error.kind = .mapping := by
  intro frame twice kept mixed disk
  constructor
  · obtain ⟨result, after, hrun, hkeys⟩ := Outcome.exists_eq_ok_of_seen
      (by decide +kernel : ((frame.apply [twice, kept] .columnwise disk {}).1.map fun result =>
        result.rows.map Row.keys).toOption = some (List.replicate 3 ["a", "b", "c", "d", "e"]))
    exact ⟨result, after, hrun,
      ((apply_spec frame [twice, kept] .columnwise disk {}).1 result after hrun).1, hkeys⟩
  · obtain ⟨outputs, after, hrun, hkept⟩ := Outcome.exists_eq_ok_of_seen
      (by decide +kernel : ((frame.outputsOf [kept, mixed] .columnwise disk {}).1.map fun outputs =>
        outputs.map fun output => Shape.keeps frame.size output.2).toOption =
          some [true, false, true])
    have hmixed : ∀ keeps ∈ [true, false], ∃ output ∈ outputs,
        Shape.keeps frame.size output.2 = keeps := by
      intro keeps hkeeps
      have hmem : keeps ∈ outputs.map fun output => Shape.keeps frame.size output.2 := by
        rw [hkept]
        revert keeps
        decide
      exact List.mem_map.mp hmem
    obtain ⟨one, hone, hhas⟩ := hmixed true (by decide)
    obtain ⟨other, hother, hnot⟩ := hmixed false (by decide)
    have hfails := ((apply_spec frame [kept, mixed] .columnwise disk {}).2 outputs after
      (.inl rfl) hrun).2 ⟨one, hone, Shape.keeps_iff.mp hhas⟩
    obtain ⟨error, herror, hkind⟩ := hfails ⟨other, hother, fun h =>
      Bool.false_ne_true (hnot.symm.trans (Shape.keeps_iff.mpr h))⟩
    exact ⟨error, after, herror, hkind⟩

end Frame

end Logbook
