import Logbook.Frame.Basic
import Logbook.Proofs.Outcome
import Logbook.Proofs.Reading

/-!
# How many rows an operation leaves

Sorting, transforming and mapping cells keep the number of rows, aggregating leaves a
single row, and applying mappings does the one or the other (`Frame.size_of_apply`).  So
no operation but a filter can make a frame empty that was not, whatever the mappings
return.

## Strategy

Rows of results are made by putting fields next to the rows they were computed from
(`Frame.ofRowFields`).  It remains to see that there are as many fields as rows: a scan
reads every row once, and outputs over whole columns are spread over the rows only if
each of them has one value for every row.
-/

namespace Logbook

namespace Frame

variable {α : Type} {frame result : Frame} {disk : Disk} {shelf after : Shelf}

theorem length_of_scan {read : Row → Reading α} {results : List α}
    (hrun : frame.scan read disk shelf = (.ok results, after)) : results.length = frame.size :=
  Reading.length_of_mapM hrun

theorem size_ofRowFields {fields : List (List (String × Value))}
    (hfields : fields.length = frame.size) : (frame.ofRowFields fields).size = frame.size := by
  unfold ofRowFields size at *
  rw [List.length_map, List.length_zip, hfields, Nat.min_self]

theorem size_of_copy (hrun : frame.copy disk shelf = (.ok result, after)) :
    result.size = frame.size := by
  obtain ⟨copies, between, hcopies, hpure⟩ := Reading.bind_eq_ok.mp hrun
  cases hpure
  exact Reading.length_of_mapM hcopies

theorem size_of_sort {keys : List String} {ascending : Bool}
    (hrun : frame.sort keys ascending disk shelf = (.ok result, after)) :
    result.size = frame.size := by
  obtain ⟨-, checked, -, hrest⟩ := Reading.bind_eq_ok.mp hrun
  obtain ⟨tuples, read, htuples, hrest⟩ := Reading.bind_eq_ok.mp hrest
  obtain ⟨copies, copied, hcopies, hpure⟩ := Reading.bind_eq_ok.mp hrest
  cases hpure
  have hlength := Reading.length_of_mapM hcopies
  rw [List.length_map, List.length_mergeSort, List.length_zip, length_of_scan htuples] at hlength
  exact hlength.trans (Nat.min_self _)

/-! ## Mappings -/

theorem length_of_shape_rows {rows : Nat} {outputs : List (String × Value)}
    {fields : List (List (String × Value))}
    (hshape : Shape.ofOutputs rows outputs = .ok (.rows fields)) : fields.length = rows := by
  dsimp only [Shape.ofOutputs] at hshape
  split at hshape
  · cases hshape
    unfold Shape.spread
    rw [List.length_map, List.length_range]
  · split at hshape <;> cases hshape

theorem size_of_ofOutputs {outputs : List (String × Value)}
    (hrun : frame.ofOutputs outputs = .ok result) :
    result.size = frame.size ∨ result.size = 1 := by
  obtain ⟨shape, hshape, hrest⟩ := Outcome.bind_eq_ok.mp hrun
  cases shape with
  | rows fields =>
    cases hrest
    exact .inl (size_ofRowFields (length_of_shape_rows hshape))
  | reduced fields =>
    cases hrest
    exact .inr rfl

theorem size_of_pointwise {plans : List Plan}
    (hrun : frame.pointwise plans disk shelf = (.ok result, after)) : result.size = frame.size := by
  obtain ⟨fields, between, hfields, hpure⟩ := Reading.bind_eq_ok.mp hrun
  cases hpure
  exact size_ofRowFields (length_of_scan hfields)

theorem size_of_rowwise {plans : List Plan}
    (hrun : frame.rowwise plans disk shelf = (.ok result, after)) : result.size = frame.size := by
  obtain ⟨fields, between, hfields, hpure⟩ := Reading.bind_eq_ok.mp hrun
  cases hpure
  exact size_ofRowFields (length_of_scan hfields)

/-- **Applying mappings gives a row for each row, or a single one.** -/
theorem size_of_apply {mappings : List Mapping} {mode : Mode}
    (hrun : frame.apply mappings mode disk shelf = (.ok result, after)) :
    result.size = frame.size ∨ result.size = 1 := by
  obtain ⟨plans, planned, -, hrest⟩ := Reading.bind_eq_ok.mp hrun
  cases mode with
  | pointwise => exact .inl (size_of_pointwise hrest)
  | rowwise => exact .inl (size_of_rowwise hrest)
  | columnwise =>
    obtain ⟨outputs, between, -, hlast⟩ := Reading.bind_eq_ok.mp hrest
    exact size_of_ofOutputs (congrArg Prod.fst hlast)
  | generic =>
    obtain ⟨outputs, between, -, hlast⟩ := Reading.bind_eq_ok.mp hrest
    exact size_of_ofOutputs (congrArg Prod.fst hlast)

theorem size_of_aggregate {mappings : List Mapping}
    (hrun : frame.aggregate mappings disk shelf = (.ok result, after)) : result.size = 1 := by
  obtain ⟨plans, planned, -, hrest⟩ := Reading.bind_eq_ok.mp hrun
  obtain ⟨outputs, between, -, hpure⟩ := Reading.bind_eq_ok.mp hrest
  cases hpure
  rfl

theorem size_of_transform {mappings : List Mapping}
    (hrun : frame.transform mappings disk shelf = (.ok result, after)) :
    result.size = frame.size := by
  obtain ⟨plans, planned, -, hrest⟩ := Reading.bind_eq_ok.mp hrun
  by_cases hempty : frame.isEmpty
  · rw [if_pos hempty] at hrest
    cases hrest
    exact (List.length_eq_zero_iff.mpr (List.isEmpty_iff.mp hempty)).symm
  · rw [if_neg hempty] at hrest
    obtain ⟨outputs, between, -, hrest⟩ := Reading.bind_eq_ok.mp hrest
    obtain ⟨shape, shaped, hshape, hrest⟩ := Reading.bind_eq_ok.mp hrest
    cases shape with
    | rows fields =>
      cases hrest
      exact size_ofRowFields (length_of_shape_rows (congrArg Prod.fst hshape))
    | reduced fields => cases hrest

end Frame

end Logbook
