import Logbook.Frame.Basic
import Logbook.Proofs.Outcome
import Logbook.Proofs.Row.Cells
import Mathlib.Data.List.Forall2

/-!
# What a filter does

A filter calls its function once, with the columns of the inputs as lists, and the function
gives one list with a truth value for each row (`Mapping.Judges`).  The rows that have got a
true value are copied (`kept`).  All else that can come of a filter is an error
(`Frame.filter_eq_ok`).
-/

namespace Logbook

/-! ## Rows that are kept -/

/-- The function of a filter, called with the columns that some members show, gives one list
with a truth value for each of them. -/
def Mapping.Judges {α : Type} (mapping : Mapping) (shows : α → String → Value → Prop)
    (members : List (α × Bool)) : Prop :=
  ∃ (column : String → List Value) (items : List Value),
    (∀ key ∈ mapping.inputs,
      List.Forall₂ (fun member value => shows member.1 key value) members (column key)) ∧
    mapping.call (mapping.inputs.map fun key => .list (column key)) = .ok [.list items] ∧
    members.map Prod.snd = items.map Value.isTruthy

/-- The members for which the function has given a true value. -/
def kept {α : Type} (members : List (α × Bool)) : List α := (members.filter Prod.snd).map Prod.fst

theorem filterMap_eq_kept {α : Type} (members : List (α × Bool)) :
    (members.filterMap fun (member, keep) => if keep then some member else none) =
      kept members := by
  induction members with
  | nil => rfl
  | cons member members ih =>
    obtain ⟨member, _ | _⟩ := member
    · exact ih
    · exact congrArg (List.cons member) ih

theorem kept_sublist {α : Type} (members : List (α × Bool)) :
    (kept members).Sublist (members.map Prod.fst) :=
  List.filter_sublist.map Prod.fst

theorem map_kept {α β : Type} (f : α → β) (members : List (α × Bool)) :
    (kept members).map f = kept (members.map (Prod.map f id)) := by
  rw [kept, kept, List.filter_map, List.map_map, List.map_map]
  rfl

theorem Mapping.Judges.imp {α : Type} {mapping : Mapping} {shows others : α → String → Value → Prop}
    {members : List (α × Bool)} (h : mapping.Judges shows members)
    (hothers : ∀ member ∈ members, ∀ key value, shows member.1 key value →
      others member.1 key value) : mapping.Judges others members := by
  obtain ⟨column, items, hcolumn, hcall, hitems⟩ := h
  refine ⟨column, items, fun key hkey => ?_, hcall, hitems⟩
  exact ((List.forall₂_and_left _ _).mpr ⟨hothers, hcolumn key hkey⟩).imp
    fun member value h => h.1 key value h.2

theorem Mapping.Judges.map {α β : Type} {mapping : Mapping} {f : α → β}
    {shows : β → String → Value → Prop} {members : List (α × Bool)}
    (h : mapping.Judges (fun member => shows (f member)) members) :
    mapping.Judges shows (members.map (Prod.map f id)) := by
  obtain ⟨column, items, hcolumn, hcall, hitems⟩ := h
  refine ⟨column, items, fun key hkey => ?_, hcall, ?_⟩
  · exact List.forall₂_map_left_iff.mpr (hcolumn key hkey)
  · rw [← hitems, List.map_map]
    rfl

/-! ## Later shelves -/

namespace Shelf

variable {disk : Disk} {now after : Shelf}

theorem later_mapM {α β : Type} {step : α → Reading β}
    (hstep : ∀ item now result after, step item disk now = (.ok result, after) →
      now.Later disk after) {items : List α} {results : List β}
    (hrun : items.mapM step disk now = (.ok results, after)) : now.Later disk after := by
  induction items generalizing now results with
  | nil =>
    cases hrun
    exact .refl
  | cons item items ih =>
    rw [List.mapM_cons] at hrun
    obtain ⟨result, between, hresult, hrest⟩ := Reading.bind_eq_ok.mp hrun
    obtain ⟨rest, last, hresults, hpure⟩ := Reading.bind_eq_ok.mp hrest
    cases hpure
    exact (hstep item now result between hresult).trans (ih hresults)

theorem later_copies {rows copies : List Row}
    (hrun : Row.copies rows disk now = (.ok copies, after)) : now.Later disk after :=
  later_mapM (fun _ _ _ _ hcopy => later_copy hcopy) hrun

theorem later_scan {frame : Frame} {keys : List String} {cells : List (List Value)}
    (hrun : frame.scan (fun row => keys.mapM row.cell) disk now = (.ok cells, after)) :
    now.Later disk after := by
  refine later_mapM (fun row now values after hvalues => ?_) hrun
  obtain ⟨read, between, hcells, hrest⟩ := Reading.bind_eq_ok.mp hvalues
  obtain ⟨⟨⟩, released, hrelease, hpure⟩ := Reading.bind_eq_ok.mp hrest
  cases hpure
  have hbetween : now.Later disk between := by
    refine later_mapM (fun key now value after hvalue => ?_) hcells
    obtain ⟨found, last, hget, hfound⟩ := Reading.bind_eq_ok.mp hvalue
    cases found <;> cases hfound <;> exact later_get? hget
  exact hbetween.trans (later_release hrelease)

end Shelf

/-! ## Filters -/

namespace Frame

variable {disk : Disk} {now after : Shelf} {frame result : Frame} {mapping : Mapping}

theorem mapping_of_ofMapping {mode : Mode} {columns : Option (List String)} {plan : Plan}
    (h : Plan.ofMapping mode columns mapping = .ok plan) : plan.mapping = mapping := by
  dsimp only [Plan.ofMapping] at h
  split at h
  · cases h
  · split at h
    · cases h
    · split at h
      · cases h
        rfl
      · cases h

/-- A filter has one plan. -/
theorem plans_of_filter {plans : List Plan}
    (hplans : Plan.ofMappings .generic frame.columns? [mapping] = .ok plans)
    (hsingle : (plans.flatMap Plan.outputs).length = 1) : ∃ key, plans = [⟨mapping, [key]⟩] := by
  have hone : [mapping].mapM (Plan.ofMapping .generic frame.columns?) = .ok plans := hplans
  rw [List.mapM_cons] at hone
  obtain ⟨plan, hplan, hrest⟩ := Outcome.bind_eq_ok.mp hone
  obtain ⟨rest, hnone, hpure⟩ := Outcome.bind_eq_ok.mp hrest
  rw [List.mapM_nil] at hnone
  cases hnone
  cases hpure
  rw [List.flatMap_cons, List.flatMap_nil, List.append_nil] at hsingle
  obtain ⟨key, hkey⟩ := List.length_eq_one_iff.mp hsingle
  exact ⟨key, by rw [← mapping_of_ofMapping hplan, ← hkey]⟩

/-- Its function is called with the columns of the inputs, and gives one value. -/
theorem generic_eq_ok {key : String} {outputs : List (String × Value)}
    (hrun : frame.generic [⟨mapping, [key]⟩] disk now = (.ok outputs, after)) :
    ∃ cells value,
      frame.scan (fun row => mapping.inputs.eraseDups.mapM row.cell) disk now = (.ok cells, after) ∧
      mapping.call (mapping.inputs.map fun key =>
        .list (columnIn mapping.inputs.eraseDups cells key)) = .ok [value] ∧
      outputs = [(key, value)] := by
  obtain ⟨column, gathered, hgather, hrest⟩ := Reading.bind_eq_ok.mp hrun
  obtain ⟨cells, scanned, hscan, hcolumn⟩ := Reading.bind_eq_ok.mp hgather
  cases hcolumn
  obtain ⟨parts, lifted, hparts, hpure⟩ := Reading.bind_eq_ok.mp hrest
  cases hpure
  have hinputs : inputsOf [⟨mapping, [key]⟩] = mapping.inputs.eraseDups := by
    rw [inputsOf, List.flatMap_cons, List.flatMap_nil, List.append_nil]
  rw [hinputs] at hscan hparts
  obtain ⟨hplan, rfl⟩ : [(⟨mapping, [key]⟩ : Plan)].mapM
      (Plan.generic (columnIn mapping.inputs.eraseDups cells)) = .ok parts ∧ gathered = after :=
    ⟨congrArg Prod.fst hparts, congrArg Prod.snd hparts⟩
  rw [List.mapM_cons] at hplan
  obtain ⟨part, hpart, hlast⟩ := Outcome.bind_eq_ok.mp hplan
  cases hlast
  obtain ⟨values, hvalues, hzip⟩ := Outcome.bind_eq_ok.mp hpart
  cases hzip
  obtain ⟨called, hcall, hlength⟩ := Outcome.bind_eq_ok.mp hvalues
  split at hlength
  · next hone =>
    cases hlength
    obtain ⟨value, rfl⟩ := List.length_eq_one_iff.mp hone
    exact ⟨cells, value, hscan, hcall, rfl⟩
  · cases hlength

/-- Only a list with an item for each row is a mask. -/
theorem mask?_eq_some {rows : Nat} {key : String} {value : Value} {mask : List Bool}
    (h : mask? rows [(key, value)] = some mask) :
    ∃ items, value = .list items ∧ items.length = rows ∧ mask = items.map Value.isTruthy := by
  unfold mask? at h
  split at h
  · next found items hhead =>
    obtain ⟨-, rfl⟩ := Prod.mk.inj (Option.some.inj hhead)
    split at h
    · next hlength => exact ⟨items, rfl, hlength, (Option.some.inj h).symm⟩
    · cases h
  · cases h

/-- A filter reads the inputs of its function, calls it once, and goes on with copies of the rows
for which it has given a true value.  Without rows it does not call the function. -/
theorem filter_eq_ok (hrun : frame.filter mapping disk now = (.ok result, after)) :
    (frame.isEmpty = true ∧ result.rows = [] ∧ now = after) ∨
    (frame.isEmpty = false ∧ ∃ cells between items,
      frame.scan (fun row => mapping.inputs.eraseDups.mapM row.cell) disk now =
        (.ok cells, between) ∧
      mapping.call (mapping.inputs.map fun key =>
        .list (columnIn mapping.inputs.eraseDups cells key)) = .ok [.list items] ∧
      items.length = frame.size ∧
      Row.copies (kept (frame.rows.zip (items.map Value.isTruthy))) disk between =
        (.ok result.rows, after)) := by
  obtain ⟨plans, planned, hplanned, hrest⟩ := Reading.bind_eq_ok.mp hrun
  obtain ⟨hplans, rfl⟩ : Plan.ofMappings .generic frame.columns? [mapping] = .ok plans ∧
      now = planned := ⟨congrArg Prod.fst hplanned, congrArg Prod.snd hplanned⟩
  by_cases hsingle : (plans.flatMap Plan.outputs).length ≠ 1
  · rw [if_pos hsingle] at hrest
    cases hrest
  rw [if_neg hsingle] at hrest
  obtain ⟨key, rfl⟩ := plans_of_filter hplans (not_not.mp hsingle)
  dsimp only at hrest
  cases hrows : frame.isEmpty with
  | true =>
    rw [if_pos hrows] at hrest
    cases hrest
    exact .inl ⟨rfl, rfl, rfl⟩
  | false =>
    rw [hrows, if_neg Bool.false_ne_true] at hrest
    obtain ⟨outputs, between, hgeneric, hrest⟩ := Reading.bind_eq_ok.mp hrest
    obtain ⟨cells, value, hscan, hcall, rfl⟩ := generic_eq_ok hgeneric
    cases hmask : mask? frame.size [(key, value)] with
    | none =>
      rw [hmask] at hrest
      cases hrest
    | some mask =>
      rw [hmask] at hrest
      obtain ⟨copies, last, hcopies, hpure⟩ := Reading.bind_eq_ok.mp hrest
      cases hpure
      obtain ⟨items, rfl, hlength, rfl⟩ := mask?_eq_some hmask
      refine .inr ⟨rfl, cells, between, items, hscan, hcall, hlength, ?_⟩
      rw [← filterMap_eq_kept]
      exact hcopies

theorem later_filter (hrun : frame.filter mapping disk now = (.ok result, after)) :
    now.Later disk after := by
  obtain ⟨-, -, rfl⟩ | ⟨-, cells, between, items, hscan, -, -, hcopies⟩ := filter_eq_ok hrun
  · exact .refl
  · exact (Shelf.later_scan hscan).trans (Shelf.later_copies hcopies)

/-- A column has what was read from each row at its key. -/
theorem forall₂_columnIn {α : Type} (shows : α → String → Value → Prop) {keys : List String}
    {key : String} (hkey : key ∈ keys) (reads : List (α × List Value))
    (hreads : ∀ read ∈ reads, List.Forall₂ (shows read.1) keys read.2) :
    List.Forall₂ (fun read value => shows read.1 key value) reads
      (columnIn keys (reads.map Prod.snd) key) := by
  induction reads with
  | nil => exact .nil
  | cons read reads ih =>
    have hread := hreads read List.mem_cons_self
    have hkeyAt : keys.idxOf key < keys.length := List.idxOf_lt_length_iff.mpr hkey
    have hat : keys.idxOf key < read.2.length := hread.length_eq ▸ hkeyAt
    have hshown : shows read.1 key read.2[keys.idxOf key] := by
      have hshows := hread.get hkeyAt hat
      rwa [List.get_eq_getElem, List.getElem_idxOf] at hshows
    rw [columnIn, List.map_cons, List.filterMap_cons, List.getElem?_eq_getElem hat]
    exact .cons hshown (ih fun other hother => hreads other (List.mem_cons_of_mem _ hother))

end Frame

/-- A call with the columns of what was read judges the members that it was read from. -/
theorem Mapping.judges_of_reads {α : Type} {mapping : Mapping} (shows : α → String → Value → Prop)
    (reads : List (α × List Value)) {items : List Value}
    (hreads : ∀ read ∈ reads, List.Forall₂ (shows read.1) mapping.inputs.eraseDups read.2)
    (hcall : mapping.call (mapping.inputs.map fun key =>
      .list (Frame.columnIn mapping.inputs.eraseDups (reads.map Prod.snd) key)) = .ok [.list items])
    (hlength : items.length = reads.length) :
    mapping.Judges shows ((reads.map Prod.fst).zip (items.map Value.isTruthy)) := by
  have hmask : (items.map Value.isTruthy).length = (reads.map Prod.fst).length := by
    rw [List.length_map, List.length_map, hlength]
  refine ⟨_, items, fun key hkey => ?_, hcall, List.map_snd_zip (Nat.le_of_eq hmask)⟩
  have hcolumn : List.Forall₂ (fun member value => shows member key value) (reads.map Prod.fst)
      (Frame.columnIn mapping.inputs.eraseDups (reads.map Prod.snd) key) :=
    List.forall₂_map_left_iff.mpr
      (Frame.forall₂_columnIn shows (List.mem_eraseDups.mpr hkey) reads hreads)
  rw [← List.map_fst_zip (Nat.le_of_eq hmask.symm)] at hcolumn
  exact List.forall₂_map_left_iff.mp hcolumn

end Logbook
