import Logbook.Proofs.Frame.RowCalls

/-!
# Mappings of a single input

A mapping with one input takes the same from a frame in either mode over whole columns, and in
either mode over rows if it has no more than one output.  So the two modes give the same rows, and
where one of them fails, so does the other, with an error that says the same but for the mode
(`Frame.apply_alike`).

## Strategy

Two computations are alike if they give the same result or errors that are alike, and leave the
shelf the same.  This goes through sequences and lists of computations, so it is enough to compare
the two checks of a mapping (`Plan.ofMapping_alike`) and the two calls of it: over whole columns
(`Plan.columnwise_alike`) and for a row (`Plan.rowCalls_alike`).
-/

namespace Logbook

/-! ## Computations that are alike -/

/-- Two errors say the same, but for the mode in which a mapping was to be applied. -/
inductive Error.Alike (left right : Mode) : Error → Error → Prop
  /-- The mode does not matter. -/
  | same (error : Error) : Alike left right error error
  /-- The outputs of a mapping fit neither mode. -/
  | outputs (mapping : String) (outputs inputs : Nat) :
      Alike left right (.misfitOutputs mapping outputs inputs left)
        (.misfitOutputs mapping outputs inputs right)
  /-- In both modes a mapping returned the wrong number of values. -/
  | results (mapping : String) (results expected : Nat) :
      Alike left right (.misfitResults mapping results expected left)
        (.misfitResults mapping results expected right)

theorem Error.Alike.kind_eq {left right : Mode} {error other : Error}
    (h : error.Alike left right other) : error.kind = other.kind := by
  cases h <;> rfl

/-- Two outcomes are the same result, or errors that are alike. -/
inductive Outcome.Alike (left right : Mode) {α : Type} : Except Error α → Except Error α → Prop
  /-- Both are a result. -/
  | ok (value : α) : Alike left right (.ok value) (.ok value)
  /-- Both are errors. -/
  | error {error other : Error} (h : error.Alike left right other) :
      Alike left right (.error error) (.error other)

/-- Two readings end alike, wherever they start, and leave the same shelf. -/
def Reading.Alike (left right : Mode) {α : Type} (first second : Reading α) : Prop :=
  ∀ disk shelf, Outcome.Alike left right (first disk shelf).1 (second disk shelf).1 ∧
    (first disk shelf).2 = (second disk shelf).2

section

variable {left right : Mode} {α β γ δ : Type}

namespace Outcome.Alike

theorem refl (outcome : Except Error α) : Alike left right outcome outcome := by
  cases outcome with
  | ok value => exact .ok value
  | error error => exact .error (.same error)

theorem bind {first second : Except Error α} {next other : α → Except Error β}
    (h : Alike left right first second)
    (hnext : ∀ value, Alike left right (next value) (other value)) :
    Alike left right (first >>= next) (second >>= other) := by
  cases h with
  | ok value => exact hnext value
  | error herror => exact .error herror

theorem mapM {step other : α → Except Error β} {items : List α}
    (h : ∀ item ∈ items, Alike left right (step item) (other item)) :
    Alike left right (items.mapM step) (items.mapM other) := by
  induction items with
  | nil => exact refl _
  | cons item items ih =>
    obtain ⟨hitem, hitems⟩ := List.forall_mem_cons.mp h
    rw [List.mapM_cons, List.mapM_cons]
    exact hitem.bind fun result => (ih hitems).bind fun results => refl (pure (result :: results))

end Outcome.Alike

namespace Reading.Alike

theorem refl (reading : Reading α) : Alike left right reading reading :=
  fun _ _ => ⟨.refl _, rfl⟩

/-- What comes after the first steps is only compared where they give a result. -/
theorem bind {first second : Reading α} {next other : α → Reading β}
    (h : Alike left right first second)
    (hnext : ∀ value, (∃ disk shelf after, first disk shelf = (.ok value, after)) →
      Alike left right (next value) (other value)) :
    Alike left right (first >>= next) (second >>= other) := by
  intro disk shelf
  obtain ⟨houtcome, hshelf⟩ := h disk shelf
  rw [bind_apply, bind_apply]
  rcases hfirst : first disk shelf with ⟨_ | value, between⟩ <;>
    rcases hsecond : second disk shelf with ⟨_ | found, after⟩ <;>
    rw [hfirst, hsecond] at houtcome hshelf
  · cases houtcome with
    | error herror => exact ⟨.error herror, hshelf⟩
  · cases houtcome
  · cases houtcome
  · cases houtcome
    obtain rfl : between = after := hshelf
    exact hnext value ⟨disk, shelf, between, hfirst⟩ disk between

theorem liftM {first second : Except Error α} (h : Outcome.Alike left right first second) :
    Alike left right (MonadLiftT.monadLift first : Reading α) (MonadLiftT.monadLift second) :=
  fun _ _ => ⟨h, rfl⟩

theorem mapM {step : α → Reading γ} {other : β → Reading γ} {items : List α} {others : List β}
    (h : List.Forall₂ (fun item found => Alike left right (step item) (other found)) items
      others) : Alike left right (items.mapM step) (others.mapM other) := by
  induction h with
  | nil => exact refl _
  | cons hitem _ ih =>
    rw [List.mapM_cons, List.mapM_cons]
    exact hitem.bind fun result _ => ih.bind fun results _ => refl (pure (result :: results))

theorem scan {frame : Frame} {read other : Row → Reading α}
    (h : ∀ row, Alike left right (read row) (other row)) :
    Alike left right (frame.scan read) (frame.scan other) :=
  mapM (List.forall₂_same.mpr fun row _ => (h row).bind fun _ _ => refl _)

end Reading.Alike

end

/-! ## Checking a mapping -/

namespace Mapping

variable {left right : Mode} {mapping : Mapping}

/-- Two modes name the outputs of a mapping alike and agree on whether they fit. -/
structure Siblings (left right : Mode) (mapping : Mapping) : Prop where
  outputKeys : mapping.outputKeys left = mapping.outputKeys right
  fits : Mapping.fits left (mapping.outputKeys right).length mapping.inputs.length =
    Mapping.fits right (mapping.outputKeys right).length mapping.inputs.length

/-- The outputs of a single input have the same names in all modes. -/
theorem outputKeys_of_single {key : String} (hinputs : mapping.inputs = [key]) (mode : Mode) :
    mapping.outputKeys mode = mapping.outputs.getD [mapping.derivedKey key] := by
  obtain ⟨name, inputs, outputs, call⟩ := mapping
  obtain rfl : inputs = [key] := hinputs
  cases outputs <;> cases mode <;> rfl

theorem siblings_columnwise_generic (h : mapping.inputs.length = 1) :
    mapping.Siblings .columnwise .generic := by
  obtain ⟨key, hinputs⟩ := List.length_eq_one_iff.mp h
  refine ⟨by rw [outputKeys_of_single hinputs, outputKeys_of_single hinputs], ?_⟩
  rw [h, Mapping.fits, Nat.mod_one]
  exact Bool.and_true _

theorem siblings_pointwise_rowwise (h : mapping.inputs.length = 1)
    (hfew : ∀ outputs ∈ mapping.outputs, outputs.length ≤ 1) :
    mapping.Siblings .pointwise .rowwise := by
  obtain ⟨key, hinputs⟩ := List.length_eq_one_iff.mp h
  refine ⟨by rw [outputKeys_of_single hinputs, outputKeys_of_single hinputs], ?_⟩
  have hlength : (mapping.outputKeys .rowwise).length ≤ 1 := by
    rw [outputKeys_of_single hinputs]
    cases houtputs : mapping.outputs with
    | none => exact Nat.le_refl 1
    | some outputs => exact hfew outputs houtputs
  rw [h]
  obtain hnone | hone : (mapping.outputKeys .rowwise).length = 0 ∨
      (mapping.outputKeys .rowwise).length = 1 := by omega
  · rw [hnone]
    rfl
  · rw [hone]
    rfl

theorem results_alike (left right : Mode) (mapping : Mapping) (expected : Nat)
    (arguments : List Value) :
    Outcome.Alike left right (mapping.results left expected arguments)
      (mapping.results right expected arguments) := by
  refine (Outcome.Alike.refl (mapping.call arguments)).bind fun values => ?_
  split
  · exact .ok values
  · exact .error (.results mapping.name values.length expected)

end Mapping

namespace Plan

variable {left right : Mode} {mapping : Mapping} {mappings : List Mapping} {plan : Plan}

theorem ofMapping_alike (h : mapping.Siblings left right) (columns : Option (List String)) :
    Outcome.Alike left right (ofMapping left columns mapping) (ofMapping right columns mapping) := by
  unfold ofMapping
  rw [h.outputKeys]
  dsimp only
  split
  · exact .refl _
  · split
    · exact .refl _
    · rw [h.fits]
      split
      · exact .ok _
      · exact .error (.outputs mapping.name _ _)

theorem ofMappings_alike (h : ∀ mapping ∈ mappings, mapping.Siblings left right)
    (columns : Option (List String)) :
    Outcome.Alike left right (ofMappings left columns mappings)
      (ofMappings right columns mappings) := by
  unfold ofMappings
  split
  · exact .refl _
  · exact .mapM fun mapping hmapping => ofMapping_alike (h mapping hmapping) columns

/-- A plan is for one of the mappings. -/
theorem exists_checked {mode : Mode} {columns : Option (List String)} {plans : List Plan}
    (hplans : ofMappings mode columns mappings = .ok plans) (hplan : plan ∈ plans) :
    ∃ mapping ∈ mappings, plan.Checked mode mapping := by
  unfold ofMappings at hplans
  split at hplans
  · cases hplans
  · obtain ⟨mapping, hmapping, hchecked⟩ := Outcome.exists_of_mem_mapM hplans hplan
    exact ⟨mapping, hmapping, checked_of_ofMapping hchecked⟩

/-! ## Calling it -/

/-- The share of a single input is all outputs. -/
theorem columnwise_alike {key : String} (hinputs : plan.mapping.inputs = [key])
    (column : String → List Value) :
    Outcome.Alike .columnwise .generic (plan.columnwise column) (plan.generic column) := by
  have hcall : plan.columnwise column = (do
      let values ← plan.mapping.results .columnwise plan.outputs.length [.list (column key)]
      return plan.outputs.zip values) := by
    simp [columnwise, outputsOfInputs, hinputs]
  have hother : plan.generic column = (do
      let values ← plan.mapping.results .generic plan.outputs.length [.list (column key)]
      return plan.outputs.zip values) := by
    rw [generic, hinputs]
    rfl
  rw [hcall, hother]
  exact (Mapping.results_alike _ _ _ _ _).bind fun values => .refl _

/-- With one output, the value of a cell is the only one of the row. -/
theorem pointwise_alike {output : String} (houtputs : plan.outputs = [output]) (cell : Value) :
    Outcome.Alike .pointwise .rowwise (plan.pointwise cell output) (plan.rowwise [cell]) := by
  have hcall : plan.pointwise cell output = (do
      let values ← plan.mapping.results .pointwise 1 [cell]
      return [output].zip values) := by
    unfold pointwise
    cases hresults : plan.mapping.results .pointwise 1 [cell] with
    | error error => rfl
    | ok values =>
      obtain ⟨value, rfl⟩ := List.length_eq_one_iff.mp (Mapping.results_eq_ok hresults).2
      rfl
  have hother : plan.rowwise [cell] = (do
      let values ← plan.mapping.results .rowwise 1 [cell]
      return [output].zip values) := by
    rw [rowwise, houtputs]
    rfl
  rw [hcall, hother]
  exact (Mapping.results_alike _ _ _ _ _).bind fun values => .refl _

end Plan

/-- Two calls for a row take the same cell, and make of it what is alike. -/
inductive RowCall.Alike (call other : RowCall) : Prop
  | of (key : String) (hcall : call.keys = [key]) (hother : other.keys = [key])
      (hfields : ∀ cell,
        Outcome.Alike .pointwise .rowwise (call.fields [cell]) (other.fields [cell])) :
      Alike call other

theorem Plan.rowCalls_alike {plan : Plan} (hinputs : plan.mapping.inputs.length = 1)
    (houtputs : plan.outputs.length = 1) :
    List.Forall₂ RowCall.Alike (plan.rowCalls .pointwise) (plan.rowCalls .rowwise) := by
  obtain ⟨key, hkey⟩ := List.length_eq_one_iff.mp hinputs
  obtain ⟨output, houtput⟩ := List.length_eq_one_iff.mp houtputs
  unfold Plan.rowCalls
  rw [hkey, houtput]
  exact .cons (.of key rfl rfl (Plan.pointwise_alike houtput)) .nil

theorem Plan.flatMap_rowCalls_alike {plans : List Plan}
    (h : ∀ plan ∈ plans, plan.mapping.inputs.length = 1 ∧ plan.outputs.length = 1) :
    List.Forall₂ RowCall.Alike (plans.flatMap (Plan.rowCalls .pointwise))
      (plans.flatMap (Plan.rowCalls .rowwise)) := by
  induction plans with
  | nil => exact .nil
  | cons plan plans ih =>
    obtain ⟨⟨hinputs, houtputs⟩, hplans⟩ := List.forall_mem_cons.mp h
    rw [List.flatMap_cons, List.flatMap_cons]
    exact List.rel_append (Plan.rowCalls_alike hinputs houtputs) (ih hplans)

/-- Calls that are alike make of a row what is alike. -/
theorem Row.make_alike {calls others : List RowCall}
    (h : List.Forall₂ RowCall.Alike calls others) (row : Row) :
    Reading.Alike .pointwise .rowwise (row.make calls) (row.make others) := by
  refine (Reading.Alike.mapM (h.imp fun call other hcalls => ?_)).bind fun _ _ => .refl _
  obtain ⟨key, hcall, hother, hfields⟩ := hcalls
  rw [hcall, hother]
  refine (Reading.Alike.refl _).bind fun cells hcells => ?_
  obtain ⟨disk, shelf, after, hread⟩ := hcells
  obtain ⟨cell, rfl⟩ := List.length_eq_one_iff.mp (Reading.length_of_mapM hread)
  exact .liftM (hfields cell)

/-! ## Applying mappings -/

namespace Frame

variable {frame : Frame} {mappings : List Mapping}

theorem apply_columnwise_alike (hsingle : ∀ mapping ∈ mappings, mapping.inputs.length = 1) :
    Reading.Alike .columnwise .generic (frame.apply mappings .columnwise)
      (frame.apply mappings .generic) := by
  rw [apply_eq_ofOutputs (.inl rfl), apply_eq_ofOutputs (.inr rfl)]
  refine Reading.Alike.bind ?_ fun outputs _ => .refl _
  have hplanned := Plan.ofMappings_alike (fun mapping hmapping =>
    Mapping.siblings_columnwise_generic (hsingle mapping hmapping)) frame.columns?
  refine (Reading.Alike.liftM hplanned).bind fun plans hplans => ?_
  obtain ⟨disk, shelf, after, hplans⟩ := hplans
  refine (Reading.Alike.refl _).bind fun column _ => ?_
  refine (Reading.Alike.liftM (.mapM fun plan hplan => ?_)).bind fun _ _ => .refl _
  obtain ⟨mapping, hmapping, hchecked⟩ :=
    Plan.exists_checked (Reading.liftM_eq_ok.mp hplans).1 hplan
  obtain ⟨key, hinputs⟩ := List.length_eq_one_iff.mp (hsingle mapping hmapping)
  exact Plan.columnwise_alike (hchecked.same ▸ hinputs) column

theorem apply_pointwise_alike (hsingle : ∀ mapping ∈ mappings, mapping.inputs.length = 1)
    (hfew : ∀ mapping ∈ mappings, ∀ outputs ∈ mapping.outputs, outputs.length ≤ 1) :
    Reading.Alike .pointwise .rowwise (frame.apply mappings .pointwise)
      (frame.apply mappings .rowwise) := by
  rw [apply_eq_make (.inl rfl), apply_eq_make (.inr rfl)]
  have hplanned := Plan.ofMappings_alike (fun mapping hmapping =>
    Mapping.siblings_pointwise_rowwise (hsingle mapping hmapping) (hfew mapping hmapping))
    frame.columns?
  refine (Reading.Alike.liftM hplanned).bind fun plans hplans => ?_
  obtain ⟨disk, shelf, after, hplans⟩ := hplans
  have hcalls : List.Forall₂ RowCall.Alike (plans.flatMap (Plan.rowCalls .pointwise))
      (plans.flatMap (Plan.rowCalls .rowwise)) := by
    refine Plan.flatMap_rowCalls_alike fun plan hplan => ?_
    obtain ⟨mapping, hmapping, hchecked⟩ :=
      Plan.exists_checked (Reading.liftM_eq_ok.mp hplans).1 hplan
    have hinputs : plan.mapping.inputs.length = 1 := hchecked.same ▸ hsingle mapping hmapping
    exact ⟨hinputs, (beq_iff_eq.mp hchecked.fits).trans hinputs⟩
  exact (Reading.Alike.scan (Row.make_alike hcalls)).bind fun fields _ => .refl _

/-- Applying mappings in two modes ends alike: both give the same frame, or both fail with errors
of one kind that say the same but for the mode.  Either way the same has been loaded. -/
def EndsAlike (disk : Disk) (before : Shelf) (frame : Frame) (mappings : List Mapping)
    (left right : Mode) : Prop :=
  (∃ result after, frame.apply mappings left disk before = (.ok result, after) ∧
    frame.apply mappings right disk before = (.ok result, after)) ∨
  ∃ error other after, frame.apply mappings left disk before = (.error error, after) ∧
    frame.apply mappings right disk before = (.error other, after) ∧
    error.kind = other.kind ∧ error.Alike left right other

theorem endsAlike_of_alike {left right : Mode}
    (h : Reading.Alike left right (frame.apply mappings left) (frame.apply mappings right))
    (disk : Disk) (before : Shelf) : frame.EndsAlike disk before mappings left right := by
  obtain ⟨houtcome, hshelf⟩ := h disk before
  unfold EndsAlike
  rcases hleft : frame.apply mappings left disk before with ⟨outcome, after⟩
  rcases hright : frame.apply mappings right disk before with ⟨found, last⟩
  rw [hleft, hright] at houtcome hshelf
  obtain rfl : after = last := hshelf
  cases houtcome with
  | ok result => exact .inl ⟨result, after, rfl, rfl⟩
  | error herror => exact .inr ⟨_, _, after, rfl, rfl, herror.kind_eq, herror⟩

/-- **Mappings of a single input do not tell sibling modes apart.**  Over whole columns it makes no
difference whether each column is taken on its own, and if no mapping has several outputs, it makes
none over rows whether each cell is. -/
theorem apply_alike (hsingle : ∀ mapping ∈ mappings, mapping.inputs.length = 1) (frame : Frame)
    (disk : Disk) (before : Shelf) :
    frame.EndsAlike disk before mappings .columnwise .generic ∧
    ((∀ mapping ∈ mappings, ∀ outputs ∈ mapping.outputs, outputs.length ≤ 1) →
      frame.EndsAlike disk before mappings .pointwise .rowwise) :=
  ⟨endsAlike_of_alike (apply_columnwise_alike hsingle) disk before,
    fun hfew => endsAlike_of_alike (apply_pointwise_alike hsingle hfew) disk before⟩

/-- One of two rows lacks the input.  Two mappings, one of them with two outputs, keep the rows in
both modes over whole columns, and one that returns too many values fails in both modes over
rows. -/
theorem apply_alike_of_two_rows :
    let frame : Frame := ⟨[Row.ofFields (some 1) [("config.lr", .int 1)],
      Row.ofFields none [("note", .str "a")]]⟩
    let same : Mapping := ⟨"same", ["config.lr"], none, .ok⟩
    let twice : Mapping :=
      ⟨"twice", ["config.lr"], some ["a", "b"], fun arguments => .ok (arguments ++ arguments)⟩
    let disk := Disk.empty ⟨"/runs"⟩
    (∃ result after, frame.apply [same, twice] .columnwise disk {} = (.ok result, after) ∧
      frame.apply [same, twice] .generic disk {} = (.ok result, after) ∧
      result.rows.map Row.keys = List.replicate 2 ["a", "b", "fsame.config.lr"]) ∧
    ∃ error other after,
      frame.apply [same, twice.withOutputs ["a"]] .pointwise disk {} = (.error error, after) ∧
      frame.apply [same, twice.withOutputs ["a"]] .rowwise disk {} = (.error other, after) ∧
      error.kind = other.kind ∧
      error.message = "Invalid map: Map 'twice' returned 2 value(s) where " ++
        "pointwise application expects 1" ∧
      other.message = "Invalid map: Map 'twice' returned 2 value(s) where " ++
        "rowwise application expects 1" := by
  intro frame same twice disk
  have hsingle : ∀ outputs, ∀ mapping ∈ [same, twice.withOutputs outputs],
      mapping.inputs.length = 1 := by
    intro outputs mapping hmapping
    simp only [List.mem_cons, List.not_mem_nil, or_false] at hmapping
    obtain rfl | rfl := hmapping <;> rfl
  have hfew : ∀ mapping ∈ [same, twice.withOutputs ["a"]], ∀ outputs ∈ mapping.outputs,
      outputs.length ≤ 1 := by
    intro mapping hmapping outputs houtputs
    simp only [List.mem_cons, List.not_mem_nil, or_false] at hmapping
    obtain rfl | rfl := hmapping <;> cases houtputs
    exact Nat.le_refl 1
  constructor
  · obtain ⟨result, after, hrun, hkeys⟩ := Outcome.exists_eq_ok_of_seen
      (by decide +kernel : ((frame.apply [same, twice] .columnwise disk {}).1.map fun result =>
        result.rows.map Row.keys).toOption =
          some (List.replicate 2 ["a", "b", "fsame.config.lr"]))
    obtain ⟨found, last, hleft, hright⟩ | ⟨error, other, last, hleft, -⟩ :=
      (apply_alike (hsingle ["a", "b"]) frame disk {}).1
    · cases hrun.symm.trans hleft
      exact ⟨result, after, hrun, hright, hkeys⟩
    · cases hrun.symm.trans hleft
  · have hfails : ∀ mode ∈ [Mode.pointwise, .rowwise],
        (match (frame.apply [same, twice.withOutputs ["a"]] mode disk {}).1 with
        | .error error => some error.message
        | .ok _ => none) = some ("Invalid map: Map 'twice' returned 2 value(s) where " ++
          mode.name ++ " application expects 1") := by
      decide +kernel
    have hleft := hfails .pointwise (by decide)
    have hright := hfails .rowwise (by decide)
    obtain ⟨result, after, hrun, -⟩ | ⟨error, other, after, hrun, hother, hkind, -⟩ :=
      (apply_alike (hsingle ["a"]) frame disk {}).2 hfew
    · rw [hrun] at hleft
      cases hleft
    · rw [hrun] at hleft
      rw [hother] at hright
      exact ⟨error, other, after, hrun, hother, hkind, Option.some.inj hleft,
        Option.some.inj hright⟩

end Frame

end Logbook
