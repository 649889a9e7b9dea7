import Logbook.Proofs.Frame.Apply
import Logbook.Proofs.Frame.Leaves
import Logbook.Proofs.Frame.Steady

/-!
# Operations that agree with applying mappings

Applying mappings over whole columns has two outcomes: it keeps the rows (`Frame.KeepsRows`) or it
reduces them to one (`Frame.Reduces`).  Transforming is the first outcome in columnwise mode and
nothing else, aggregating gives what the second one gives, and a filter looks at the rows of the
first one in generic mode, for a mapping with a single output (`Frame.agrees_with_apply`).

## Strategy

All of them call the mappings in the same way, so each is an equation in `Frame.outputsOf`, and
what is left are the cases of `Shape.ofOutputs_cases`.
-/

namespace Logbook

/-- Whether a row has a true value at a key. -/
def Row.truthAt (key : String) (row : Row) : Bool :=
  match row.slots.get? key with
  | some (.value value) => value.isTruthy
  | _ => false

namespace Frame

variable {disk : Disk} {before after : Shelf} {frame result : Frame} {mappings : List Mapping}
  {mapping : Mapping} {mode : Mode} {outputs : List (String × Value)}

/-! ## Two outcomes -/

/-- Applying mappings keeps the rows: every output has an item for each of them. -/
def KeepsRows (disk : Disk) (before after : Shelf) (frame : Frame) (mappings : List Mapping)
    (mode : Mode) (result : Frame) : Prop :=
  ∃ outputs, frame.outputsOf mappings mode disk before = (.ok outputs, after) ∧
    (∀ output ∈ outputs, Shape.HasItemFor frame.size output.2) ∧
    frame.apply mappings mode disk before = (.ok result, after)

/-- Applying mappings reduces the rows to one: no output has an item for each of them. -/
def Reduces (disk : Disk) (before after : Shelf) (frame : Frame) (mappings : List Mapping)
    (mode : Mode) (result : Frame) : Prop :=
  ∃ outputs, frame.outputsOf mappings mode disk before = (.ok outputs, after) ∧
    (∀ output ∈ outputs, ¬Shape.HasItemFor frame.size output.2) ∧
    frame.apply mappings mode disk before = (.ok result, after)

/-- There are outputs, as each mapping has at least one. -/
theorem ne_nil_of_outputsOf (hmode : mode = .columnwise ∨ mode = .generic)
    (houtputs : frame.outputsOf mappings mode disk before = (.ok outputs, after)) :
    outputs ≠ [] := by
  obtain ⟨plans, planned, hplanned, -⟩ := Reading.bind_eq_ok.mp houtputs
  obtain ⟨hchecks, -⟩ := Reading.liftM_eq_ok.mp hplanned
  obtain ⟨hsome, hplans⟩ := Plan.checked_of_ofMappings hchecks
  obtain ⟨column, -, hgiven⟩ := givenByColumns_of_outputsOf hmode houtputs
  cases hplans with
  | nil => exact absurd rfl hsome
  | cons hplan _ =>
    rintro rfl
    have hkeys := hgiven.keys
    rw [List.map_nil, List.flatMap_cons] at hkeys
    have hnone := (List.append_eq_nil_iff.mp hkeys.symm).1
    have hfits := hplan.fits
    rw [hplan.outputs, hnone] at hfits
    obtain rfl | rfl := hmode <;> simp [Mapping.fits] at hfits

/-- The outputs decide the outcome, and the result. -/
theorem keepsRows_iff (hmode : mode = .columnwise ∨ mode = .generic) :
    frame.KeepsRows disk before after mappings mode result ↔
      ∃ outputs, frame.outputsOf mappings mode disk before = (.ok outputs, after) ∧
        (∀ output ∈ outputs, Shape.HasItemFor frame.size output.2) ∧
        Shape.ofOutputs frame.size outputs = .ok (.rows (Shape.spread frame.size outputs)) ∧
        result = frame.ofRowFields (Shape.spread frame.size outputs) := by
  apply exists_congr
  intro outputs
  apply and_congr_right
  intro houtputs
  apply and_congr_right
  intro hall
  have hshape := Shape.ofOutputs_of_all (ne_nil_of_outputsOf hmode houtputs) hall
  rw [apply_eq_ofOutputs hmode, Reading.bind_of_ok houtputs, Reading.liftM_eq_ok, ofOutputs, hshape]
  constructor
  · rintro ⟨hmade, -⟩
    exact ⟨rfl, (Except.ok.inj hmade).symm⟩
  · rintro ⟨-, rfl⟩
    exact ⟨rfl, rfl⟩

theorem reduces_iff (hmode : mode = .columnwise ∨ mode = .generic) :
    frame.Reduces disk before after mappings mode result ↔
      ∃ outputs, frame.outputsOf mappings mode disk before = (.ok outputs, after) ∧
        (∀ output ∈ outputs, ¬Shape.HasItemFor frame.size output.2) ∧
        Shape.ofOutputs frame.size outputs = .ok (.reduced outputs) ∧ result = single outputs := by
  apply exists_congr
  intro outputs
  apply and_congr_right
  intro houtputs
  apply and_congr_right
  intro hnone
  have hshape := Shape.ofOutputs_of_none (ne_nil_of_outputsOf hmode houtputs) hnone
  rw [apply_eq_ofOutputs hmode, Reading.bind_of_ok houtputs, Reading.liftM_eq_ok, ofOutputs, hshape]
  constructor
  · rintro ⟨hmade, -⟩
    exact ⟨rfl, (Except.ok.inj hmade).symm⟩
  · rintro ⟨-, rfl⟩
    exact ⟨rfl, rfl⟩

/-! ## Transforming and aggregating -/

theorem transform_eq (hrows : frame.isEmpty = false) :
    frame.transform mappings = (do
      match ← Shape.ofOutputs frame.size (← frame.outputsOf mappings .columnwise) with
      | .rows fields => return frame.ofRowFields fields
      | .reduced _ => throw (.reducing frame.size) : Reading Frame) := by
  unfold transform outputsOf
  rw [bind_assoc]
  apply congrArg
  funext plans
  rw [hrows]
  exact if_neg Bool.false_ne_true

theorem aggregate_eq : frame.aggregate mappings =
    (do return single (← frame.outputsOf mappings .columnwise) : Reading Frame) := by
  unfold aggregate outputsOf
  rw [bind_assoc]

/-- **Transforming is applying with the outcome that keeps the rows.** -/
theorem transform_eq_ok_iff (hrows : frame.isEmpty = false) :
    frame.transform mappings disk before = (.ok result, after) ↔
      frame.KeepsRows disk before after mappings .columnwise result := by
  rw [transform_eq hrows, keepsRows_iff (.inl rfl), Reading.bind_eq_ok]
  constructor
  · rintro ⟨outputs, between, houtputs, hrest⟩
    obtain ⟨shape, shaped, hshaped, hlast⟩ := Reading.bind_eq_ok.mp hrest
    obtain ⟨hshape, rfl⟩ := Reading.liftM_eq_ok.mp hshaped
    obtain ⟨-, hall, hspread⟩ | ⟨-, hreduced⟩ | ⟨-, -, keys, herror⟩ :=
      Shape.ofOutputs_cases frame.size outputs
    · obtain rfl := Except.ok.inj (hshape.symm.trans hspread)
      cases hlast
      exact ⟨outputs, houtputs, hall, hspread, rfl⟩
    · obtain rfl := Except.ok.inj (hshape.symm.trans hreduced)
      cases hlast
    · cases hshape.symm.trans herror
  · rintro ⟨outputs, houtputs, -, hshape, rfl⟩
    refine ⟨outputs, after, houtputs, ?_⟩
    rw [Reading.bind_of_ok (Reading.liftM_eq_ok.mpr ⟨hshape, rfl⟩)]
    rfl

/-- **Where applying reduces the rows, aggregating gives the same row**, and transforming fails. -/
theorem aggregate_of_reduces (hrows : frame.isEmpty = false)
    (h : frame.Reduces disk before after mappings .columnwise result) :
    frame.aggregate mappings disk before = (.ok result, after) ∧
      ∃ error, frame.transform mappings disk before = (.error error, after) ∧
        error.kind = .mapping := by
  obtain ⟨outputs, houtputs, -, hshape, rfl⟩ := (reduces_iff (.inl rfl)).mp h
  constructor
  · rw [aggregate_eq, Reading.bind_of_ok houtputs]
    rfl
  · refine ⟨.reducing frame.size, ?_, rfl⟩
    rw [transform_eq hrows, Reading.bind_of_ok houtputs,
      Reading.bind_of_ok (Reading.liftM_eq_ok.mpr ⟨hshape, rfl⟩)]
    rfl

/-! ## Filtering -/

theorem outputKeys_of_plans {plans : List Plan}
    (hchecks : Plan.ofMappings .generic frame.columns? [mapping] = .ok plans) :
    plans.flatMap Plan.outputs = mapping.outputKeys .generic := by
  obtain ⟨-, hplans⟩ := Plan.checked_of_ofMappings hchecks
  cases hplans with
  | cons hplan hrest =>
    cases hrest
    rw [List.flatMap_cons, List.flatMap_nil, List.append_nil, hplan.outputs]

theorem exists_key_of_filter (hrun : frame.filter mapping disk before = (.ok result, after)) :
    ∃ key, mapping.outputKeys .generic = [key] := by
  obtain ⟨plans, planned, hplanned, hrest⟩ := Reading.bind_eq_ok.mp hrun
  obtain ⟨hchecks, rfl⟩ := Reading.liftM_eq_ok.mp hplanned
  apply List.length_eq_one_iff.mp
  rw [← outputKeys_of_plans hchecks]
  by_contra hlength
  rw [if_pos hlength] at hrest
  cases hrest

theorem filter_eq {key : String} (hkey : mapping.outputKeys .generic = [key])
    (hrows : frame.isEmpty = false) :
    frame.filter mapping disk before = (do
      match mask? frame.size (← frame.outputsOf [mapping] .generic) with
      | none => throw (.filterSize mapping.name frame.size)
      | some mask => return ⟨← Row.copies (kept (frame.rows.zip mask))⟩ : Reading Frame)
        disk before := by
  unfold filter outputsOf
  rw [bind_assoc, Reading.bind_apply, Reading.bind_apply]
  have hlift : (liftM (Plan.ofMappings .generic frame.columns? [mapping]) : Reading (List Plan))
      disk before = (Plan.ofMappings .generic frame.columns? [mapping], before) := rfl
  rw [hlift]
  cases hchecks : Plan.ofMappings .generic frame.columns? [mapping] with
  | error error => rfl
  | ok plans =>
    have hlength : ¬(plans.flatMap Plan.outputs).length ≠ 1 := by
      rw [outputKeys_of_plans hchecks, hkey]
      exact not_not.mpr rfl
    dsimp only
    rw [if_neg hlength, hrows]
    simp only [← filterMap_eq_kept]
    rfl

/-- The single output of a filter. -/
theorem exists_output_of_key {key : String} (hkey : mapping.outputKeys .generic = [key])
    (houtputs : frame.outputsOf [mapping] .generic disk before = (.ok outputs, after)) :
    ∃ value, outputs = [(key, value)] := by
  obtain ⟨column, -, hgiven⟩ := givenByColumns_of_outputsOf (.inr rfl) houtputs
  have hkeys := hgiven.keys
  rw [List.flatMap_cons, List.flatMap_nil, List.append_nil, hkey] at hkeys
  obtain ⟨output, hone⟩ := List.length_eq_one_iff.mp (by
    rw [← List.length_map Prod.fst, hkeys, List.length_singleton] : outputs.length = 1)
  obtain ⟨found, value⟩ := output
  rw [hone] at hkeys
  obtain rfl : found = key := List.head_eq_of_cons_eq hkeys
  exact ⟨value, hone⟩

/-- The rows that come of a single output show its items. -/
theorem map_truthAt_of_spreadTo {key : String} {items : List Value} {judged : Frame}
    (hspread : frame.SpreadTo [(key, .list items)] judged) :
    judged.rows.map (Row.truthAt key) = items.map Value.isTruthy := by
  obtain ⟨found, hfound, hlength⟩ := hspread.lists _ List.mem_cons_self
  cases hfound
  have hsize : judged.rows.length = items.length := hspread.size.trans hlength.symm
  apply List.ext_getElem?
  intro i
  by_cases hi : i < frame.rows.length
  · obtain ⟨made, fields, hmade, hrow, hfields⟩ := hspread.row i _ (List.getElem?_eq_getElem hi)
    cases hfields with
    | @cons _ field _ _ hfield hnone =>
      cases hnone
      obtain ⟨hkey, items, hitems, hitem⟩ := hfield
      cases hitems
      have hslot : made.slots.get? key = some (.value field.2) := by
        rw [hrow.field, List.reverse_singleton, List.find?_singleton, if_pos (decide_eq_true hkey)]
        rfl
      rw [List.getElem?_map, List.getElem?_map, hmade, hitem, Option.map_some, Option.map_some,
        Row.truthAt, hslot]
  · have hout : items.length ≤ i := by
      rw [hlength]
      exact Nat.not_lt.mp hi
    rw [List.getElem?_eq_none (by rw [List.length_map, hsize]; exact hout),
      List.getElem?_eq_none (by rw [List.length_map]; exact hout)]

/-- **A filter looks at the rows of the outcome that keeps the rows**, for a mapping with a single
output, and goes on with copies of the rows that show a true value there. -/
theorem filter_eq_ok_iff (hrows : frame.isEmpty = false) :
    frame.filter mapping disk before = (.ok result, after) ↔
      ∃ key judged between, mapping.outputKeys .generic = [key] ∧
        frame.KeepsRows disk before between [mapping] .generic judged ∧
        Row.copies (kept (frame.rows.zip (judged.rows.map (Row.truthAt key)))) disk between =
          (.ok result.rows, after) := by
  constructor
  · intro hrun
    obtain ⟨key, hkey⟩ := exists_key_of_filter hrun
    rw [filter_eq hkey hrows] at hrun
    obtain ⟨outputs, between, houtputs, hrest⟩ := Reading.bind_eq_ok.mp hrun
    obtain ⟨value, rfl⟩ := exists_output_of_key hkey houtputs
    cases hmask : mask? frame.size [(key, value)] with
    | none =>
      rw [hmask] at hrest
      cases hrest
    | some mask =>
      rw [hmask] at hrest
      obtain ⟨copies, last, hcopies, hpure⟩ := Reading.bind_eq_ok.mp hrest
      cases hpure
      obtain ⟨items, rfl, hlength, rfl⟩ := mask?_eq_some hmask
      have hall : ∀ output ∈ [(key, Value.list items)], Shape.HasItemFor frame.size output.2 := by
        intro output houtput
        rw [List.mem_singleton.mp houtput]
        exact ⟨items, rfl, hlength⟩
      have hshape := Shape.ofOutputs_of_all (ne_nil_of_outputsOf (.inr rfl) houtputs) hall
      refine ⟨key, _, between, hkey,
        (keepsRows_iff (.inr rfl)).mpr ⟨_, houtputs, hall, hshape, rfl⟩, ?_⟩
      rw [map_truthAt_of_spreadTo (spreadTo_ofRowFields hall)]
      exact hcopies
  · rintro ⟨key, judged, between, hkey, hkeeps, hcopies⟩
    obtain ⟨outputs, houtputs, hall, -, rfl⟩ := (keepsRows_iff (.inr rfl)).mp hkeeps
    obtain ⟨value, rfl⟩ := exists_output_of_key hkey houtputs
    obtain ⟨items, hitems, hlength⟩ := hall _ List.mem_cons_self
    obtain rfl : value = .list items := hitems
    rw [map_truthAt_of_spreadTo (spreadTo_ofRowFields hall)] at hcopies
    have hmask : mask? frame.size [(key, .list items)] = some (items.map Value.isTruthy) :=
      if_pos hlength
    rw [filter_eq hkey hrows, Reading.bind_of_ok houtputs, hmask]
    exact Reading.bind_of_ok hcopies

/-! ## The rows that a filter leaves -/

theorem scan_of_gather {plans : List Plan} {column : String → List Value}
    (hrun : frame.gather plans disk before = (.ok column, after)) :
    ∃ cells, frame.scan (fun row => (inputsOf plans).mapM row.cell) disk before =
      (.ok cells, after) := by
  obtain ⟨cells, between, hscan, hpure⟩ := Reading.bind_eq_ok.mp hrun
  cases hpure
  exact ⟨cells, hscan⟩

/-- What is read for the outputs are the inputs of the mappings. -/
theorem scan_of_outputsOf (hmode : mode = .columnwise ∨ mode = .generic)
    (houtputs : frame.outputsOf mappings mode disk before = (.ok outputs, after)) :
    ∃ (keys : List String) (cells : List (List Value)),
      (∀ key ∈ keys, ∃ mapping ∈ mappings, key ∈ mapping.inputs) ∧
      frame.scan (fun row => keys.mapM row.cell) disk before = (.ok cells, after) := by
  obtain ⟨plans, planned, hplanned, hrest⟩ := Reading.bind_eq_ok.mp houtputs
  obtain ⟨hchecks, rfl⟩ := Reading.liftM_eq_ok.mp hplanned
  obtain ⟨-, hplans⟩ := Plan.checked_of_ofMappings hchecks
  have hinputs : ∀ key ∈ inputsOf plans, ∃ mapping ∈ mappings, key ∈ mapping.inputs := by
    intro key hkey
    rw [inputsOf, List.mem_eraseDups, Plan.inputs_of_checked hplans] at hkey
    exact List.mem_flatMap.mp hkey
  obtain rfl | rfl := hmode
  all_goals
    obtain ⟨column, gathered, hgather, hlast⟩ := Reading.bind_eq_ok.mp hrest
    obtain ⟨parts, given, hgiven, hpure⟩ := Reading.bind_eq_ok.mp hlast
    cases hpure
    obtain ⟨-, rfl⟩ := Reading.liftM_eq_ok.mp hgiven
    obtain ⟨cells, hscan⟩ := scan_of_gather hgather
    exact ⟨inputsOf plans, cells, hinputs, hscan⟩

/-- The rows that a filter leaves are copies of rows of the frame, which have what those have now,
and where the filter did not read, what they had before. -/
def LeftUnaltered (before after : Shelf) (mapping : Mapping) (rows copies : List Row) : Prop :=
  List.Forall₂ (fun row copy => row.CopyOf after copy ∧ ∀ key ∉ mapping.inputs,
    Option.Rel (Slot.CopiedTo before after) (row.slots.get? key) (copy.slots.get? key)) rows copies

theorem Owned.leftUnaltered {between : Shelf} {judged : Frame} {mask : List Bool}
    {copies : List Row} (howned : frame.Owned before)
    (hkeeps : frame.KeepsRows disk before between [mapping] .generic judged)
    (hcopies : Row.copies (kept (frame.rows.zip mask)) disk between = (.ok copies, after)) :
    LeftUnaltered before after mapping (kept (frame.rows.zip mask)) copies := by
  obtain ⟨outputs, houtputs, -, -⟩ := hkeeps
  obtain ⟨keys, cells, hkeys, hscan⟩ := scan_of_outputsOf (.inr rfl) houtputs
  have hrows : ∀ row ∈ kept (frame.rows.zip mask), row ∈ frame.rows := by
    intro row hrow
    obtain ⟨pair, hpair, rfl⟩ := List.mem_map.mp ((kept_sublist _).subset hrow)
    exact (List.of_mem_zip hpair).1
  apply (howned.sortedTo_of_copies hscan (Shelf.later_scan hscan) hrows hcopies).imp
  intro row copy hcopy
  refine ⟨hcopy.copyOf, fun key hkey => hcopy.unread key fun hread => hkey ?_⟩
  obtain ⟨found, hfound, hinput⟩ := hkeys key hread
  rwa [List.mem_singleton.mp hfound] at hinput

/-- **The operations agree with applying mappings.** -/
theorem agrees_with_apply (howned : frame.Owned before) (hrows : frame.isEmpty = false)
    (disk : Disk) :
    (∀ mappings result after, frame.transform mappings disk before = (.ok result, after) ↔
      frame.KeepsRows disk before after mappings .columnwise result) ∧
    (∀ mappings result after, frame.Reduces disk before after mappings .columnwise result →
      frame.aggregate mappings disk before = (.ok result, after) ∧
      ∃ error, frame.transform mappings disk before = (.error error, after) ∧
        error.kind = .mapping) ∧
    ∀ mapping,
      ((∃ result after, frame.filter mapping disk before = (.ok result, after)) ↔
        (mapping.outputKeys .generic).length = 1 ∧
          ∃ judged between, frame.KeepsRows disk before between [mapping] .generic judged) ∧
      ∀ result after, frame.filter mapping disk before = (.ok result, after) →
        ∃ key judged between, mapping.outputKeys .generic = [key] ∧
          frame.KeepsRows disk before between [mapping] .generic judged ∧
          LeftUnaltered before after mapping
            (kept (frame.rows.zip (judged.rows.map (Row.truthAt key)))) result.rows := by
  refine ⟨fun _ _ _ => transform_eq_ok_iff hrows, fun _ _ _ => aggregate_of_reduces hrows,
    fun mapping => ⟨⟨?_, ?_⟩, ?_⟩⟩
  · rintro ⟨result, after, hrun⟩
    obtain ⟨key, judged, between, hkey, hkeeps, -⟩ := (filter_eq_ok_iff hrows).mp hrun
    exact ⟨congrArg List.length hkey, judged, between, hkeeps⟩
  · rintro ⟨hlength, judged, between, hkeeps⟩
    obtain ⟨key, hkey⟩ := List.length_eq_one_iff.mp hlength
    obtain ⟨copies, after, hcopies, -⟩ := Grouping.exists_copies
      (kept (frame.rows.zip (judged.rows.map (Row.truthAt key)))) disk between
    exact ⟨⟨copies⟩, after,
      (filter_eq_ok_iff hrows).mpr ⟨key, judged, between, hkey, hkeeps, hcopies⟩⟩
  · intro result after hrun
    obtain ⟨key, judged, between, hkey, hkeeps, hcopies⟩ := (filter_eq_ok_iff hrows).mp hrun
    exact ⟨key, judged, between, hkey, hkeeps, howned.leftUnaltered hkeeps hcopies⟩

/-- Two rows, one of them with a computed field, are transformed, reduced and filtered. -/
theorem agrees_of_two_rows :
    let start := Shelf.addComputed (fun _ key => .ok (.str key)) {}
    let frame : Frame := ⟨[(Row.ofFields (some 1) [("config.lr", .int 0)]).insert "note"
      (.computed start.1), Row.ofFields (some 2) [("config.lr", .int 2)]]⟩
    let same : Mapping := ⟨"same", ["note", "config.lr"], none, .ok⟩
    let count : Mapping := ⟨"count", ["config.lr"], none, fun _ => .ok [.int 2]⟩
    let nonzero : Mapping := ⟨"nonzero", ["config.lr"], none, .ok⟩
    let disk := Disk.empty ⟨"/runs"⟩
    frame.Owned start.2 ∧ frame.isEmpty = false ∧
      (∃ result after, frame.transform [same] disk start.2 = (.ok result, after) ∧
        frame.KeepsRows disk start.2 after [same] .columnwise result) ∧
      (∃ result after, frame.Reduces disk start.2 after [count] .columnwise result ∧
        frame.aggregate [count] disk start.2 = (.ok result, after)) ∧
      ∃ result after judged between,
        frame.filter nonzero disk start.2 = (.ok result, after) ∧
        frame.KeepsRows disk start.2 between [nonzero] .generic judged ∧
        LeftUnaltered start.2 after nonzero (kept (frame.rows.zip (judged.rows.map
          (Row.truthAt "fnonzero.config.lr")))) result.rows ∧
        result.rows.map Row.id = [some 2] := by
  intro start frame same count nonzero disk
  have howned : frame.Owned start.2 := by
    refine Owned.insert_computed_head (owned_of_plain (fun row hrow key => ?_) {}) "note" _
    simp only [List.mem_cons, List.not_mem_nil, or_false] at hrow
    obtain rfl | rfl := hrow <;> exact Row.cellAt?_ofFields _ _ key
  obtain ⟨htransform, haggregate, hfilter⟩ := agrees_with_apply howned rfl disk
  refine ⟨howned, rfl, ?_, ?_, ?_⟩
  · obtain ⟨result, after, hrun⟩ := Reading.exists_of_isOk
      (by decide +kernel : (frame.transform [same] disk start.2).1.isOk)
    exact ⟨result, after, hrun, (htransform [same] result after).mp hrun⟩
  · obtain ⟨outputs, after, houtputs, hkept⟩ := Outcome.exists_eq_ok_of_seen
      (by decide +kernel : ((frame.outputsOf [count] .columnwise disk start.2).1.map fun outputs =>
        outputs.all fun output => !Shape.keeps frame.size output.2).toOption = some true)
    have hnone : ∀ output ∈ outputs, ¬Shape.HasItemFor frame.size output.2 := by
      intro output houtput hhas
      have hnot := List.all_eq_true.mp hkept output houtput
      rw [Shape.keeps_iff.mpr hhas] at hnot
      cases hnot
    have hreduces : frame.Reduces disk start.2 after [count] .columnwise (single outputs) :=
      (reduces_iff (.inl rfl)).mpr ⟨outputs, houtputs, hnone,
        Shape.ofOutputs_of_none (ne_nil_of_outputsOf (.inl rfl) houtputs) hnone, rfl⟩
    exact ⟨_, after, hreduces, (haggregate [count] _ after hreduces).1⟩
  · obtain ⟨result, after, hrun, hids⟩ := Outcome.exists_eq_ok_of_seen
      (by decide +kernel : ((frame.filter nonzero disk start.2).1.map fun result =>
        result.rows.map Row.id).toOption = some [some 2])
    obtain ⟨key, judged, between, hkey, hkeeps, hleft⟩ := (hfilter nonzero).2 result after hrun
    obtain rfl : "fnonzero.config.lr" = key := List.head_eq_of_cons_eq hkey
    exact ⟨result, after, judged, between, hrun, hkeeps, hleft, hids⟩

end Frame

end Logbook
