import Logbook.Mapping.Basic
import Logbook.Proofs.Outcome
import Mathlib.Data.List.Forall2

/-!
# What the calls of a mapping give

A mapping takes an argument for each of its inputs and gives a value for each of its outputs.
Which arguments a call gets, and which outputs its values are for, is a matter of the mode
(`Mapping.Returns`).  A plan does what its mode says (`Plan.gives_pointwise`,
`Plan.gives_columnwise`, `Plan.gives_rowwise`, `Plan.gives_generic`).

## Strategy

Under the columnwise mode every input has an equal share of the outputs.  The outputs of a plan
are collected input by input, so they are a list of lists of one length, and an output is found by
the number of its input and its place in the share (`getElem?_flatten_of_length`).
-/

namespace Logbook

namespace Outcome

variable {ε α β : Type}

theorem forall₂_of_mapM {compute : α → Except ε β} {items : List α} {results : List β}
    (hrun : items.mapM compute = .ok results) :
    List.Forall₂ (fun item result => compute item = .ok result) items results := by
  induction items generalizing results with
  | nil =>
    cases hrun
    exact .nil
  | cons item items ih =>
    rw [List.mapM_cons] at hrun
    obtain ⟨first, hfirst, hrest⟩ := bind_eq_ok.mp hrun
    obtain ⟨rest, hmore, hpure⟩ := bind_eq_ok.mp hrest
    cases hpure
    exact .cons hfirst (ih hmore)

theorem mapM_of_forall₂ {compute : α → Except ε β} {items : List α} {results : List β}
    (h : List.Forall₂ (fun item result => compute item = .ok result) items results) :
    items.mapM compute = .ok results := by
  induction h with
  | nil => rfl
  | cons hfirst _ ih =>
    rw [List.mapM_cons, hfirst, ih]
    rfl

end Outcome

/-! ## Lists in equal shares -/

theorem getElem?_flatten_of_length {α : Type} {parts : List (List α)} {share : Nat}
    (hshare : ∀ part ∈ parts, part.length = share) {position : Nat} {part : List α}
    (hpart : parts[position]? = some part) {place : Nat} (hplace : place < share) :
    parts.flatten[position * share + place]? = part[place]? := by
  induction parts generalizing position with
  | nil => cases hpart
  | cons first parts ih =>
    obtain ⟨hfirst, hparts⟩ := List.forall_mem_cons.mp hshare
    rw [List.flatten_cons]
    cases position with
    | zero =>
      obtain rfl : first = part := Option.some_inj.mp hpart
      rw [Nat.zero_mul, Nat.zero_add, List.getElem?_append_left (by omega)]
    | succ position =>
      rw [Nat.succ_mul, List.getElem?_append_right (by omega)]
      have hindex : position * share + share + place - first.length = position * share + place := by
        omega
      rw [hindex]
      exact ih hparts hpart

theorem exists_getElem?_of_forall₂ {α β : Type} {relation : α → β → Prop} {items : List α}
    {others : List β} (h : List.Forall₂ relation items others) {position : Nat} {item : α}
    (hitem : items[position]? = some item) :
    ∃ other, others[position]? = some other ∧ relation item other := by
  induction h generalizing position with
  | nil => cases hitem
  | cons hfirst _ ih =>
    cases position with
    | zero =>
      obtain rfl := Option.some_inj.mp hitem
      exact ⟨_, rfl, hfirst⟩
    | succ position => exact ih hitem

theorem length_flatten_of_length {α : Type} {parts : List (List α)} {share : Nat}
    (hshare : ∀ part ∈ parts, part.length = share) :
    parts.flatten.length = parts.length * share := by
  rw [List.length_flatten, List.map_congr_left hshare, List.map_const', List.sum_replicate_nat]

/-- A list that is cut into equal shares is what they are together. -/
theorem eq_flatten_of_shares {α : Type} {items : List α} {parts : List (List α)} (share : Nat)
    (hlength : items.length = parts.length * share)
    (hparts : ∀ position part, parts[position]? = some part →
      part = (items.drop (position * share)).take share) : parts.flatten = items := by
  induction parts generalizing items with
  | nil =>
    rw [List.length_nil, Nat.zero_mul] at hlength
    rw [List.length_eq_zero_iff.mp hlength, List.flatten_nil]
  | cons first parts ih =>
    rw [List.length_cons, Nat.succ_mul] at hlength
    have hfirst : first = items.take share := by
      have hzero := hparts 0 first rfl
      rwa [Nat.zero_mul, List.drop_zero] at hzero
    have hrest : parts.flatten = items.drop share := by
      apply ih
      · rw [List.length_drop, hlength, Nat.add_sub_cancel]
      · intro position part hpart
        have hnext := hparts (position + 1) part hpart
        rwa [Nat.succ_mul, Nat.add_comm, ← List.drop_drop] at hnext
    rw [List.flatten_cons, hfirst, hrest, List.take_append_drop]

/-! ## Mappings -/

namespace Mapping

/-- One call for each argument, each with an equal share of the values: the value in place `j` of
call `i` is the one at `i * share + j`. -/
structure ReturnsByColumn (mapping : Mapping) (arguments values : List Value) : Prop where
  share : values.length = arguments.length * (values.length / arguments.length)
  call (i : Nat) (argument : Value) (hargument : arguments[i]? = some argument) :
    ∃ answer, mapping.call [argument] = .ok answer ∧
      answer.length = values.length / arguments.length ∧
      ∀ j < answer.length, values[i * (values.length / arguments.length) + j]? = answer[j]?

/-- What a mapping returns under a mode for some arguments, one for each input. -/
def Returns (mapping : Mapping) (mode : Mode) (arguments values : List Value) : Prop :=
  match mode with
  | .pointwise =>
      List.Forall₂ (fun argument value => mapping.call [argument] = .ok [value]) arguments values
  | .columnwise => mapping.ReturnsByColumn arguments values
  | .rowwise | .generic => mapping.call arguments = .ok values

/-- Under a mode a mapping gives each of its outputs a value. -/
structure Gives (mapping : Mapping) (mode : Mode) (arguments : List Value)
    (fields : List (String × Value)) : Prop where
  keys : fields.map Prod.fst = mapping.outputKeys mode
  values : mapping.Returns mode arguments (fields.map Prod.snd)

/-- What mappings give one after the other, each for the arguments that it takes. -/
def GiveAll (mode : Mode) (takes : Mapping → List Value → Prop) (mappings : List Mapping)
    (fields : List (String × Value)) : Prop :=
  ∃ parts, fields = parts.flatten ∧ List.Forall₂
    (fun mapping part => ∃ arguments, takes mapping arguments ∧ mapping.Gives mode arguments part)
    mappings parts

theorem GiveAll.imp {mode : Mode} {takes others : Mapping → List Value → Prop}
    {mappings : List Mapping} {fields : List (String × Value)}
    (h : GiveAll mode takes mappings fields)
    (hothers : ∀ mapping arguments, takes mapping arguments → others mapping arguments) :
    GiveAll mode others mappings fields := by
  obtain ⟨parts, hfields, hparts⟩ := h
  refine ⟨parts, hfields, hparts.imp ?_⟩
  rintro mapping part ⟨arguments, htakes, hgives⟩
  exact ⟨arguments, hothers mapping arguments htakes, hgives⟩

/-- Every output of every mapping has a value, and nothing else has. -/
theorem GiveAll.keys {mode : Mode} {takes : Mapping → List Value → Prop} {mappings : List Mapping}
    {fields : List (String × Value)} (h : GiveAll mode takes mappings fields) :
    fields.map Prod.fst = mappings.flatMap fun mapping => mapping.outputKeys mode := by
  obtain ⟨parts, rfl, hparts⟩ := h
  induction hparts with
  | nil => rfl
  | cons hpart _ ih =>
    obtain ⟨arguments, -, hgives⟩ := hpart
    rw [List.flatten_cons, List.map_append, List.flatMap_cons, hgives.keys, ih]

theorem results_eq_ok {mapping : Mapping} {mode : Mode} {expected : Nat}
    {arguments values : List Value}
    (h : mapping.results mode expected arguments = .ok values) :
    mapping.call arguments = .ok values ∧ values.length = expected := by
  obtain ⟨called, hcall, hlength⟩ := Outcome.bind_eq_ok.mp h
  split at hlength
  · next hexpected =>
    cases hlength
    exact ⟨hcall, hexpected⟩
  · cases hlength

end Mapping

/-! ## Plans -/

namespace Plan

open Mapping

/-- A plan as a check of a mapping gives it. -/
structure Checked (mode : Mode) (mapping : Mapping) (plan : Plan) : Prop where
  same : plan.mapping = mapping
  outputs : plan.outputs = mapping.outputKeys mode
  inputs : plan.mapping.inputs ≠ []
  fits : Mapping.fits mode plan.outputs.length plan.mapping.inputs.length = true

theorem checked_of_ofMapping {mode : Mode} {columns : Option (List String)} {mapping : Mapping}
    {plan : Plan} (h : ofMapping mode columns mapping = .ok plan) : plan.Checked mode mapping := by
  dsimp only [ofMapping] at h
  split at h
  · cases h
  · next hinputs =>
    split at h
    · cases h
    · split at h
      · next hfits =>
        cases h
        exact ⟨rfl, rfl, fun heq => hinputs (List.isEmpty_iff.mpr heq), hfits⟩
      · cases h

theorem checked_of_ofMappings {mode : Mode} {columns : Option (List String)}
    {mappings : List Mapping} {plans : List Plan}
    (h : ofMappings mode columns mappings = .ok plans) :
    mappings ≠ [] ∧
      List.Forall₂ (fun mapping plan => plan.Checked mode mapping) mappings plans := by
  unfold ofMappings at h
  split at h
  · cases h
  · next hsome =>
    refine ⟨fun heq => hsome (List.isEmpty_iff.mpr heq), ?_⟩
    exact (Outcome.forall₂_of_mapM h).imp fun _ _ => checked_of_ofMapping

/-- A mapping can be planned if it fits the mode and its inputs are columns. -/
theorem ofMapping_eq_ok_iff {mode : Mode} {columns : Option (List String)} {mapping : Mapping}
    {plan : Plan} : ofMapping mode columns mapping = .ok plan ↔
      plan.Checked mode mapping ∧
        ∀ names, columns = some names → ∀ key ∈ mapping.inputs, key ∈ names := by
  have hknown : (columns.bind fun names =>
      (mapping.inputs.find? fun key => !names.contains key).map fun key => (key, names)) = none ↔
        ∀ names, columns = some names → ∀ key ∈ mapping.inputs, key ∈ names := by
    cases columns <;> simp
  rw [← hknown]
  constructor
  · intro h
    refine ⟨checked_of_ofMapping h, ?_⟩
    dsimp only [ofMapping] at h
    split at h
    · cases h
    · split at h
      · cases h
      · assumption
  · rintro ⟨⟨rfl, houtputs, hinputs, hfits⟩, hnone⟩
    dsimp only [ofMapping]
    rw [if_neg fun hempty => hinputs (List.isEmpty_iff.mp hempty), hnone, ← houtputs]
    exact if_pos hfits

theorem forall₂_ofMapping_iff {mode : Mode} {columns : Option (List String)}
    {mappings : List Mapping} {plans : List Plan} :
    List.Forall₂ (fun mapping plan => ofMapping mode columns mapping = .ok plan) mappings plans ↔
      (∀ mapping ∈ mappings, ∀ names, columns = some names → ∀ key ∈ mapping.inputs, key ∈ names) ∧
        List.Forall₂ (fun mapping plan => plan.Checked mode mapping) mappings plans := by
  rw [← List.forall₂_and_left]
  constructor
  · exact fun h => h.imp fun _ _ hplan => (ofMapping_eq_ok_iff.mp hplan).symm
  · exact fun h => h.imp fun _ _ hplan => ofMapping_eq_ok_iff.mpr hplan.symm

/-- If mappings can be planned for some columns, the plans are the same for all others that have
the inputs. -/
theorem ofMappings_of_columns {mode : Mode} {columns others : Option (List String)}
    {mappings : List Mapping} {plans : List Plan}
    (h : ofMappings mode columns mappings = .ok plans)
    (hothers : ∀ names, others = some names → ∀ key ∈ mappings.flatMap Mapping.inputs,
      key ∈ names) : ofMappings mode others mappings = .ok plans := by
  unfold ofMappings at h ⊢
  split at h
  · cases h
  · next hsome =>
    rw [if_neg hsome]
    obtain ⟨-, hplans⟩ := forall₂_ofMapping_iff.mp (Outcome.forall₂_of_mapM h)
    apply Outcome.mapM_of_forall₂
    refine forall₂_ofMapping_iff.mpr ⟨fun mapping hmapping names hnames key hkey => ?_, hplans⟩
    exact hothers names hnames key (List.mem_flatMap.mpr ⟨mapping, hmapping, hkey⟩)

theorem inputs_of_ofMappings {mode : Mode} {names : List String} {mappings : List Mapping}
    {plans : List Plan} (h : ofMappings mode (some names) mappings = .ok plans) :
    ∀ key ∈ mappings.flatMap Mapping.inputs, key ∈ names := by
  intro key hkey
  obtain ⟨mapping, hmapping, hinput⟩ := List.mem_flatMap.mp hkey
  unfold ofMappings at h
  split at h
  · cases h
  · obtain ⟨hknown, -⟩ := forall₂_ofMapping_iff.mp (Outcome.forall₂_of_mapM h)
    exact hknown mapping hmapping names rfl key hinput

theorem inputs_of_checked {mode : Mode} {mappings : List Mapping} {plans : List Plan}
    (h : List.Forall₂ (fun mapping plan => plan.Checked mode mapping) mappings plans) :
    (plans.flatMap fun plan => plan.mapping.inputs) = mappings.flatMap Mapping.inputs := by
  induction h with
  | nil => rfl
  | cons hplan _ ih => rw [List.flatMap_cons, List.flatMap_cons, hplan.same, ih]

variable {mapping : Mapping} {plan : Plan} {fields : List (String × Value)}

/-- A single call has a value for each output. -/
theorem gives_of_results {mode : Mode} {arguments values : List Value}
    (hplan : plan.Checked mode mapping) (hmode : mode = .rowwise ∨ mode = .generic)
    (hresults : plan.mapping.results mode plan.outputs.length arguments = .ok values) :
    mapping.Gives mode arguments (plan.outputs.zip values) := by
  obtain ⟨hcall, hlength⟩ := results_eq_ok hresults
  rw [hplan.same] at hcall
  constructor
  · rw [List.map_fst_zip (Nat.le_of_eq hlength.symm), hplan.outputs]
  · rw [List.map_snd_zip (Nat.le_of_eq hlength)]
    obtain rfl | rfl := hmode <;> exact hcall

theorem gives_rowwise {cells : List Value} (hplan : plan.Checked .rowwise mapping)
    (hrun : plan.rowwise cells = .ok fields) : mapping.Gives .rowwise cells fields := by
  obtain ⟨values, hresults, hzip⟩ := Outcome.bind_eq_ok.mp hrun
  cases hzip
  exact gives_of_results hplan (.inl rfl) hresults

theorem gives_generic {column : String → List Value} (hplan : plan.Checked .generic mapping)
    (hrun : plan.generic column = .ok fields) :
    mapping.Gives .generic (mapping.inputs.map fun key => .list (column key)) fields := by
  obtain ⟨values, hresults, hzip⟩ := Outcome.bind_eq_ok.mp hrun
  cases hzip
  rw [hplan.same] at hresults
  exact gives_of_results hplan (.inr rfl) (hplan.same ▸ hresults)

theorem pointwise_eq_ok {cell : Value} {output : String}
    (hrun : plan.pointwise cell output = .ok fields) :
    ∃ value, plan.mapping.call [cell] = .ok [value] ∧ fields = [(output, value)] := by
  obtain ⟨values, hresults, hmap⟩ := Outcome.bind_eq_ok.mp hrun
  cases hmap
  obtain ⟨hcall, hlength⟩ := results_eq_ok hresults
  obtain ⟨value, rfl⟩ := List.length_eq_one_iff.mp hlength
  exact ⟨value, hcall, rfl⟩

/-- One call for each input and the output next to it. -/
theorem exists_arguments_of_pointwise {shows : String → Value → Prop} {inputs outputs : List String}
    {parts : List (List (String × Value))} (hlength : outputs.length = inputs.length)
    (hparts : List.Forall₂ (fun pair part => ∃ cell, shows pair.1 cell ∧
      plan.pointwise cell pair.2 = .ok part) (inputs.zip outputs) parts) :
    ∃ arguments, List.Forall₂ shows inputs arguments ∧ parts.flatten.map Prod.fst = outputs ∧
      List.Forall₂ (fun argument value => plan.mapping.call [argument] = .ok [value]) arguments
        (parts.flatten.map Prod.snd) := by
  induction inputs generalizing outputs parts with
  | nil =>
    obtain rfl := List.length_eq_zero_iff.mp hlength
    cases hparts
    exact ⟨[], .nil, rfl, .nil⟩
  | cons input inputs ih =>
    cases outputs with
    | nil => cases hlength
    | cons output outputs =>
      cases hparts with
      | cons hfirst hrest =>
        obtain ⟨cell, hshown, hpart⟩ := hfirst
        obtain ⟨value, hcall, rfl⟩ := pointwise_eq_ok hpart
        obtain ⟨arguments, hmore, hkeys, hcalls⟩ := ih (Nat.succ.inj hlength) hrest
        exact ⟨cell :: arguments, .cons hshown hmore, congrArg (List.cons output) hkeys,
          .cons hcall hcalls⟩

theorem gives_pointwise {shows : String → Value → Prop} {parts : List (List (String × Value))}
    (hplan : plan.Checked .pointwise mapping)
    (hparts : List.Forall₂ (fun pair part => ∃ cell, shows pair.1 cell ∧
      plan.pointwise cell pair.2 = .ok part) (plan.mapping.inputs.zip plan.outputs) parts) :
    ∃ arguments, List.Forall₂ shows mapping.inputs arguments ∧
      mapping.Gives .pointwise arguments parts.flatten := by
  obtain ⟨rfl, houtputs, -, hfits⟩ := hplan
  have hlength : plan.outputs.length = plan.mapping.inputs.length := eq_of_beq hfits
  obtain ⟨arguments, hshown, hkeys, hcalls⟩ := exists_arguments_of_pointwise hlength hparts
  exact ⟨arguments, hshown, hkeys.trans houtputs, hcalls⟩

/-- What the call on the column of input `i` gives: its share of the outputs, with values. -/
structure IsShare (plan : Plan) (column : String → List Value) (share i : Nat)
    (part : List (String × Value)) : Prop where
  length : part.length = share
  keys : part.map Prod.fst = (plan.outputs.drop (i * share)).take share
  call (input : String) (hinput : plan.mapping.inputs[i]? = some input) :
    plan.mapping.call [.list (column input)] = .ok (part.map Prod.snd)

/-- Equal shares of the outputs, one for each input. -/
structure InShares (plan : Plan) (column : String → List Value) (share : Nat)
    (parts : List (List (String × Value))) : Prop where
  inputs : parts.length = plan.mapping.inputs.length
  outputs : plan.outputs.length = parts.length * share
  part (i : Nat) (part : List (String × Value)) (hpart : parts[i]? = some part) :
    plan.IsShare column share i part

theorem isShare_of_results {column : String → List Value} {i share : Nat} {input : String}
    {part : List (String × Value)}
    (houtputs : plan.outputs.length = plan.mapping.inputs.length * share)
    (hinput : plan.mapping.inputs[i]? = some input)
    (hgiven : (do
      let values ← plan.mapping.results .columnwise share [.list (column input)]
      return ((plan.outputs.drop (i * share)).take share).zip values) = .ok part) :
    plan.IsShare column share i part := by
  obtain ⟨answer, hresults, hzip⟩ := Outcome.bind_eq_ok.mp hgiven
  cases hzip
  obtain ⟨hcall, hlength⟩ := results_eq_ok hresults
  have htaken : ((plan.outputs.drop (i * share)).take share).length = answer.length := by
    have hi : i + 1 ≤ plan.mapping.inputs.length := (List.getElem?_eq_some_iff.mp hinput).1
    have hbound : i * share + share ≤ plan.mapping.inputs.length * share := by
      rw [← Nat.succ_mul]
      exact Nat.mul_le_mul_right share hi
    rw [List.length_take, List.length_drop, houtputs, hlength]
    omega
  constructor
  · rw [List.length_zip, htaken, Nat.min_self, hlength]
  · exact List.map_fst_zip (Nat.le_of_eq htaken)
  · intro other hother
    obtain rfl : input = other := Option.some_inj.mp (hinput.symm.trans hother)
    rw [List.map_snd_zip (Nat.le_of_eq htaken.symm)]
    exact hcall

theorem inShares_of_columnwise {column : String → List Value}
    {parts : List (List (String × Value))} (hplan : plan.Checked .columnwise mapping)
    (hparts : (plan.outputsOfInputs.mapM fun (input, outputs) => do
      let values ← plan.mapping.results .columnwise
        (plan.outputs.length / plan.mapping.inputs.length) [.list (column input)]
      return outputs.zip values) = .ok parts) :
    plan.InShares column (plan.outputs.length / plan.mapping.inputs.length) parts := by
  have hcalls := Outcome.forall₂_of_mapM hparts
  have hinputs : parts.length = plan.mapping.inputs.length := by
    rw [← hcalls.length_eq, outputsOfInputs, List.length_map, List.length_zipIdx]
  have houtputs : plan.outputs.length = plan.mapping.inputs.length *
      (plan.outputs.length / plan.mapping.inputs.length) := by
    have hmod : plan.outputs.length % plan.mapping.inputs.length = 0 := by
      simpa using (Bool.and_eq_true_iff.mp hplan.fits).2
    rw [Nat.mul_div_cancel' (Nat.dvd_of_mod_eq_zero hmod)]
  refine ⟨hinputs, hinputs.symm ▸ houtputs, fun i part hget => ?_⟩
  obtain ⟨_, hcut, hgiven⟩ := exists_getElem?_of_forall₂ hcalls.flip hget
  rw [outputsOfInputs, List.getElem?_map, List.getElem?_zipIdx, Option.map_map,
    Nat.zero_add] at hcut
  obtain ⟨input, hinput, rfl⟩ := Option.map_eq_some_iff.mp hcut
  exact isShare_of_results houtputs hinput hgiven

section Shares

variable {column : String → List Value} {share : Nat} {parts : List (List (String × Value))}

theorem InShares.length_of_mem (h : plan.InShares column share parts) :
    ∀ part ∈ parts, part.length = share := by
  intro part hpart
  obtain ⟨i, hget⟩ := List.mem_iff_getElem?.mp hpart
  exact (h.part i part hget).length

theorem InShares.keys_eq (h : plan.InShares column share parts) :
    parts.flatten.map Prod.fst = plan.outputs := by
  rw [List.map_flatten]
  apply eq_flatten_of_shares share
  · rw [List.length_map, h.outputs]
  · intro i keys hkeys
    rw [List.getElem?_map] at hkeys
    obtain ⟨part, hpart, rfl⟩ := Option.map_eq_some_iff.mp hkeys
    exact (h.part i part hpart).keys

theorem InShares.returnsByColumn (h : plan.InShares column share parts)
    (hinputs : plan.mapping.inputs ≠ []) :
    plan.mapping.ReturnsByColumn (plan.mapping.inputs.map fun key => .list (column key))
      (parts.flatten.map Prod.snd) := by
  have htotal : (parts.flatten.map Prod.snd).length =
      (plan.mapping.inputs.map fun key => Value.list (column key)).length * share := by
    rw [List.length_map, length_flatten_of_length h.length_of_mem, List.length_map, h.inputs]
  have hshare : (parts.flatten.map Prod.snd).length /
      (plan.mapping.inputs.map fun key => Value.list (column key)).length = share := by
    rw [htotal, Nat.mul_div_cancel_left share]
    rw [List.length_map]
    exact List.length_pos_iff.mpr hinputs
  constructor
  · rw [hshare, htotal]
  · intro i argument hargument
    rw [List.getElem?_map] at hargument
    obtain ⟨input, hinput, rfl⟩ := Option.map_eq_some_iff.mp hargument
    have hi : i < parts.length := h.inputs ▸ (List.getElem?_eq_some_iff.mp hinput).1
    have hpart := List.getElem?_eq_getElem hi
    have hgiven := h.part i _ hpart
    rw [hshare]
    refine ⟨_, hgiven.call input hinput, by rw [List.length_map, hgiven.length], fun j hj => ?_⟩
    rw [List.length_map, hgiven.length] at hj
    rw [List.getElem?_map, List.getElem?_map, getElem?_flatten_of_length h.length_of_mem hpart hj]

end Shares

theorem gives_columnwise {column : String → List Value} (hplan : plan.Checked .columnwise mapping)
    (hrun : plan.columnwise column = .ok fields) :
    mapping.Gives .columnwise (mapping.inputs.map fun key => .list (column key)) fields := by
  obtain ⟨parts, hparts, hflatten⟩ := Outcome.bind_eq_ok.mp hrun
  cases hflatten
  have hshares := inShares_of_columnwise hplan hparts
  obtain ⟨rfl, houtputs, hinputs, -⟩ := hplan
  exact ⟨hshares.keys_eq.trans houtputs, hshares.returnsByColumn hinputs⟩

end Plan

/-! ## The shape of outputs -/

namespace Shape

/-- A list with an item for each of so many rows. -/
def HasItemFor (rows : Nat) (value : Value) : Prop :=
  ∃ items, value = .list items ∧ items.length = rows

theorem keeps_iff {rows : Nat} {value : Value} :
    keeps rows value = true ↔ HasItemFor rows value := by
  cases value <;> simp [keeps, HasItemFor]

/-- Either all outputs have an item for each row, or none has, or some have and others have not. -/
theorem ofOutputs_cases (rows : Nat) (outputs : List (String × Value)) :
    (outputs ≠ [] ∧ (∀ output ∈ outputs, HasItemFor rows output.2) ∧
      ofOutputs rows outputs = .ok (.rows (spread rows outputs))) ∨
    ((∀ output ∈ outputs, ¬HasItemFor rows output.2) ∧
      ofOutputs rows outputs = .ok (.reduced outputs)) ∨
    ((∃ output ∈ outputs, HasItemFor rows output.2) ∧
      (∃ output ∈ outputs, ¬HasItemFor rows output.2) ∧
      ∃ keys, ofOutputs rows outputs = .error (.mixedShapes keys rows)) := by
  simp only [← keeps_iff]
  unfold ofOutputs
  dsimp only
  split
  · next hall =>
    obtain ⟨hlength, hsome⟩ := Bool.and_eq_true_iff.mp hall
    refine .inl ⟨?_, List.length_filter_eq_length_iff.mp (of_decide_eq_true hlength), rfl⟩
    rintro rfl
    cases hsome
  · next hnot =>
    split
    · next hnone =>
      refine .inr (.inl ⟨fun output houtput hkeeps => ?_, rfl⟩)
      exact List.filter_eq_nil_iff.mp (List.isEmpty_iff.mp hnone) output houtput hkeeps
    · next hsome =>
      obtain ⟨output, hmem⟩ := List.exists_mem_of_ne_nil _ fun heq =>
        hsome (List.isEmpty_iff.mpr heq)
      obtain ⟨houtput, hkeeps⟩ := List.mem_filter.mp hmem
      refine .inr (.inr ⟨⟨output, houtput, hkeeps⟩, ?_, _, rfl⟩)
      by_contra hall
      push Not at hall
      apply hnot
      rw [List.length_filter_eq_length_iff.mpr hall, Bool.and_eq_true_iff]
      refine ⟨decide_eq_true rfl, ?_⟩
      cases outputs with
      | nil => cases houtput
      | cons => rfl

theorem ofOutputs_of_all {rows : Nat} {outputs : List (String × Value)} (hsome : outputs ≠ [])
    (hall : ∀ output ∈ outputs, HasItemFor rows output.2) :
    ofOutputs rows outputs = .ok (.rows (spread rows outputs)) := by
  obtain ⟨-, -, hshape⟩ | ⟨hnone, -⟩ | ⟨-, ⟨output, houtput, hnot⟩, -⟩ :=
    ofOutputs_cases rows outputs
  · exact hshape
  · obtain ⟨output, houtput⟩ := List.exists_mem_of_ne_nil outputs hsome
    exact absurd (hall output houtput) (hnone output houtput)
  · exact absurd (hall output houtput) hnot

theorem ofOutputs_of_none {rows : Nat} {outputs : List (String × Value)} (hsome : outputs ≠ [])
    (hnone : ∀ output ∈ outputs, ¬HasItemFor rows output.2) :
    ofOutputs rows outputs = .ok (.reduced outputs) := by
  obtain ⟨-, hall, -⟩ | ⟨-, hshape⟩ | ⟨⟨output, houtput, hhas⟩, -⟩ := ofOutputs_cases rows outputs
  · obtain ⟨output, houtput⟩ := List.exists_mem_of_ne_nil outputs hsome
    exact absurd (hall output houtput) (hnone output houtput)
  · exact hshape
  · exact absurd hhas (hnone output houtput)

/-- The fields of a row are its items of the outputs. -/
theorem forall₂_fields {rows position : Nat} {outputs : List (String × Value)}
    (hall : ∀ output ∈ outputs, HasItemFor rows output.2) (hposition : position < rows) :
    List.Forall₂ (fun output field => field.1 = output.1 ∧
        ∃ items, output.2 = .list items ∧ items[position]? = some field.2) outputs
      (outputs.filterMap fun (key, value) =>
        value.toItems?.bind fun items => items[position]?.map fun item => (key, item)) := by
  induction outputs with
  | nil => exact .nil
  | cons output outputs ih =>
    obtain ⟨⟨items, hitems, hlength⟩, hrest⟩ := List.forall_mem_cons.mp hall
    obtain ⟨key, value⟩ := output
    obtain rfl : value = .list items := hitems
    have hitem := List.getElem?_eq_getElem (hlength ▸ hposition : position < items.length)
    have hfield : ((Value.list items).toItems?.bind fun items =>
        items[position]?.map fun item => (key, item)) = some (key, items[position]) := by
      show (items[position]?.map fun item => (key, item)) = _
      rw [hitem, Option.map_some]
    rw [List.filterMap_cons]
    dsimp only
    rw [hfield]
    exact .cons ⟨rfl, items, rfl, hitem⟩ (ih hrest)

end Shape

end Logbook
