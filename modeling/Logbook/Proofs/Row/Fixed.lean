import Logbook.Proofs.Row.Cells
import Logbook.Proofs.Shelf

/-!
# Fields whose value does not change any more

Reading a field can give another value later only if it is computed and has not been read.
A field that is a value or that is loaded gives the same again, because files do not change
and loaders are faithful to them; and a computed field that has been read keeps its value, as
does every copy.  `Row.Fixed` says this of one field of a row.

## Strategy

What happens to a shelf is reading, releasing and copying (`Shelf.Later`).  None of them
changes what a loader is for, makes a loader unfaithful, or touches a cell that has a value, so
each of these facts goes through by induction (`Later.keeps`, `Later.faithful`,
`Later.settled?`).
-/

namespace Logbook

/-- Copying fields of a row only puts cells behind those that there were. -/
theorem Row.shelf_copyFields (row : Row) (shelf : Shelf) (fields : List (String × Slot)) :
    ∃ cells, (row.copyFields shelf fields).2 = { shelf with cells := cells } ∧
      shelf.cells.size ≤ cells.size ∧
      ∀ cell, cell < shelf.cells.size → cells[cell]? = shelf.cells[cell]? := by
  induction fields generalizing row shelf with
  | nil => exact ⟨shelf.cells, rfl, Nat.le_refl _, fun _ _ => rfl⟩
  | cons field fields ih =>
    obtain ⟨key, slot⟩ := field
    cases slot with
    | computed cell =>
      cases hcell : shelf.cells[cell]? with
      | none =>
        rw [copyFields, Shelf.copyCell, hcell]
        exact ih _ shelf
      | some state =>
        obtain ⟨cells, hshelf, hsize, hkept⟩ :=
          ih (row.insert key (.computed shelf.cells.size)) (shelf.addCell state).2
        have hpush : (shelf.addCell state).2.cells.size = shelf.cells.size + 1 :=
          Array.size_push state
        refine ⟨cells, ?_, by omega, fun other hother => ?_⟩
        · rw [copyFields, Shelf.copyCell, hcell]
          exact hshelf
        · rw [hkept other (by omega)]
          exact (Array.getElem?_push_lt hother).trans (Array.getElem?_eq_getElem hother).symm
    | value value => exact ih row shelf
    | metric loader => exact ih row shelf
    | artifacts loader => exact ih row shelf

namespace Shelf

variable {disk : Disk} {before after : Shelf}

/-- The loaders on a shelf hold what the files say. -/
structure Faithful (disk : Disk) (shelf : Shelf) : Prop where
  metrics (loader : Nat) (state : MetricLoader) (h : shelf.metrics[loader]? = some state) :
    state.Faithful disk
  artifacts (loader : Nat) (state : ArtifactLoader) (h : shelf.artifacts[loader]? = some state) :
    state.Faithful disk

theorem Keeps.trans {first second third : Shelf} (hfirst : first.Keeps disk second)
    (hsecond : second.Keeps disk third) : first.Keeps disk third where
  metrics loader state hstate := by
    obtain ⟨later, hlater, hcontinues⟩ := hfirst.metrics loader state hstate
    obtain ⟨last, hlast, hmore⟩ := hsecond.metrics loader later hlater
    exact ⟨last, hlast, hcontinues.trans hmore⟩
  artifacts loader state hstate := by
    obtain ⟨later, hlater, hcontinues⟩ := hfirst.artifacts loader state hstate
    obtain ⟨last, hlast, hmore⟩ := hsecond.artifacts loader later hlater
    exact ⟨last, hlast, hcontinues.trans hmore⟩

/-- The second shelf has the loaders of the first in later states, and no others. -/
structure SameLoaders (disk : Disk) (before after : Shelf) : Prop where
  keeps : before.Keeps disk after
  metrics_size : after.metrics.size = before.metrics.size
  artifacts_size : after.artifacts.size = before.artifacts.size

theorem SameLoaders.refl (disk : Disk) (shelf : Shelf) : SameLoaders disk shelf shelf :=
  ⟨.refl disk shelf, rfl, rfl⟩

theorem SameLoaders.trans {first second third : Shelf} (hfirst : first.SameLoaders disk second)
    (hsecond : second.SameLoaders disk third) : first.SameLoaders disk third :=
  ⟨hfirst.keeps.trans hsecond.keeps, hsecond.metrics_size.trans hfirst.metrics_size,
    hsecond.artifacts_size.trans hfirst.artifacts_size⟩

theorem SameLoaders.of_eq (hmetrics : after.metrics = before.metrics)
    (hartifacts : after.artifacts = before.artifacts) : before.SameLoaders disk after where
  keeps := by
    refine ⟨fun loader state hstate => ⟨state, ?_, .refl disk state⟩,
      fun loader state hstate => ⟨state, ?_, .refl disk state⟩⟩
    · rw [hmetrics, hstate]
    · rw [hartifacts, hstate]
  metrics_size := by rw [hmetrics]
  artifacts_size := by rw [hartifacts]

theorem SameLoaders.faithful (h : before.SameLoaders disk after) (hbefore : before.Faithful disk) :
    after.Faithful disk where
  metrics loader state hstate := by
    have hlt : loader < before.metrics.size :=
      h.metrics_size ▸ (Array.getElem?_eq_some_iff.mp hstate).1
    obtain ⟨later, hlater, hcontinues⟩ :=
      h.keeps.metrics loader _ (Array.getElem?_eq_getElem hlt)
    obtain rfl : later = state := Option.some_inj.mp (hlater.symm.trans hstate)
    exact hcontinues.faithful (hbefore.metrics loader _ (Array.getElem?_eq_getElem hlt))
  artifacts loader state hstate := by
    have hlt : loader < before.artifacts.size :=
      h.artifacts_size ▸ (Array.getElem?_eq_some_iff.mp hstate).1
    obtain ⟨later, hlater, hcontinues⟩ :=
      h.keeps.artifacts loader _ (Array.getElem?_eq_getElem hlt)
    obtain rfl : later = state := Option.some_inj.mp (hlater.symm.trans hstate)
    exact hcontinues.faithful (hbefore.artifacts loader _ (Array.getElem?_eq_getElem hlt))

/-! ## Reading, releasing and copying -/

theorem sameLoaders_compute (cell : Nat) (key : String) (disk : Disk) (shelf : Shelf) :
    shelf.SameLoaders disk (compute cell key disk shelf).2 := by
  have hcall : ∀ source, (call source key disk shelf).2.metrics = shelf.metrics ∧
      (call source key disk shelf).2.artifacts = shelf.artifacts := fun source => by
    unfold call
    cases shelf.sources[source]? <;> exact ⟨rfl, rfl⟩
  cases hcell : shelf.cells[cell]? with
  | none =>
    rw [compute_of_absent hcell]
    exact .refl disk shelf
  | some state =>
    obtain ⟨source, _ | value⟩ := state
    · rw [compute_of_unsettled hcell]
      obtain ⟨hmetrics, hartifacts⟩ := hcall source
      rcases hrun : call source key disk shelf with ⟨error | value, between⟩ <;>
        rw [hrun] at hmetrics hartifacts <;> exact .of_eq hmetrics hartifacts
    · rw [compute_of_settled (settled?_eq_some_iff.mpr ⟨source, hcell⟩)]
      exact .refl disk shelf

theorem sameLoaders_readSlot (disk : Disk) (shelf : Shelf) (key : String) (slot : Slot) :
    shelf.SameLoaders disk (Row.readSlot key slot disk shelf).2 := by
  cases slot with
  | value value => exact .refl disk shelf
  | metric loader =>
    refine ⟨keeps_fetchMetric disk shelf loader key, ?_, ?_⟩ <;> rw [Row.readSlot, fetchMetric] <;>
      cases shelf.metrics[loader]? <;> simp
  | artifacts loader =>
    refine ⟨keeps_fetchArtifacts disk shelf loader key, ?_, ?_⟩ <;>
      rw [Row.readSlot, fetchArtifacts] <;> cases shelf.artifacts[loader]? <;> simp
  | computed cell => exact sameLoaders_compute cell key disk shelf

private theorem size_foldl_modify {α : Type} (change : α → α) (numbers : List Nat)
    (states : Array α) :
    (numbers.foldl (fun states number => states.modify number change) states).size =
      states.size := by
  induction numbers generalizing states with
  | nil => rfl
  | cons number numbers ih => rw [List.foldl_cons, ih, Array.size_modify]

theorem sameLoaders_release (disk : Disk) (shelf : Shelf) (metrics artifacts : List Nat) :
    shelf.SameLoaders disk (shelf.release metrics artifacts) :=
  ⟨keeps_release disk shelf metrics artifacts, size_foldl_modify _ metrics _,
    size_foldl_modify _ artifacts _⟩

end Shelf

namespace Row

variable {disk : Disk} {shelf : Shelf}

theorem sameLoaders_get? (row : Row) (key : String) (disk : Disk) (shelf : Shelf) :
    shelf.SameLoaders disk (row.get? key disk shelf).2 := by
  cases hslot : row.slots.get? key with
  | none =>
    rw [get?_of_none hslot]
    exact .refl disk shelf
  | some slot =>
    rw [get?_of_some hslot]
    exact Shelf.sameLoaders_readSlot disk shelf key slot

/-- A field that has been computed does not change any more when a row is read. -/
theorem settled?_of_get? {cell : Nat} {value : Value} (hcell : shelf.settled? cell = some value)
    (row : Row) (key : String) : (row.get? key disk shelf).2.settled? cell = some value := by
  by_cases hown : row.cellAt? key = some cell
  · rw [get?_of_some (cellAt?_eq_some_iff.mp hown), readSlot, Shelf.compute_of_settled hcell]
    exact hcell
  · rw [Shelf.settled?, getElem?_cells_get? hown]
    exact hcell

end Row

namespace Shelf

variable {disk : Disk} {before after : Shelf}

/-! ## Later shelves -/

theorem Later.sameLoaders (h : before.Later disk after) : before.SameLoaders disk after := by
  induction h with
  | refl => exact .refl disk before
  | get? row key _ ih => exact ih.trans (row.sameLoaders_get? key disk _)
  | release row _ ih => exact ih.trans (sameLoaders_release disk _ row.metrics row.artifacts)
  | @copy shelf row _ ih =>
    obtain ⟨cells, hshelf, -⟩ := row.shelf_copyFields shelf row.slots.entries
    refine ih.trans ?_
    show shelf.SameLoaders disk (row.copyFields shelf row.slots.entries).2
    rw [hshelf]
    exact .of_eq rfl rfl

theorem Later.faithful (h : before.Later disk after) (hbefore : before.Faithful disk) :
    after.Faithful disk :=
  h.sameLoaders.faithful hbefore

/-! ## Faithful shelves -/

theorem faithful_empty (disk : Disk) : ({} : Shelf).Faithful disk where
  metrics loader state hstate := by simp at hstate
  artifacts loader state hstate := by simp at hstate

theorem Faithful.addComputed {shelf : Shelf} (h : shelf.Faithful disk)
    (answer : Nat → String → Except Error Value) : (shelf.addComputed answer).2.Faithful disk :=
  ⟨h.metrics, h.artifacts⟩

/-- The loaders of a new row have not loaded anything. -/
theorem Faithful.ofDocument {shelf : Shelf} (h : shelf.Faithful disk) (id : RunId)
    (document : Document) (run : Path) (codecs : Codecs) :
    (Row.ofDocument id document run codecs shelf).2.Faithful disk where
  metrics loader state hstate := by
    obtain hmem | hmem := Array.mem_append.mp (Array.mem_of_getElem? hstate)
    · obtain ⟨old, hold⟩ := Array.getElem?_of_mem hmem
      exact h.metrics old state hold
    · obtain ⟨log, -, rfl⟩ := List.mem_map.mp (List.mem_toArray.mp hmem)
      exact MetricLoader.faithful_ofRun disk run log
  artifacts loader state hstate := by
    obtain hmem | hmem := Array.mem_append.mp (Array.mem_of_getElem? hstate)
    · obtain ⟨old, hold⟩ := Array.getElem?_of_mem hmem
      exact h.artifacts old state hold
    · obtain ⟨kind, -, rfl⟩ := List.mem_map.mp (List.mem_toArray.mp hmem)
      intro groups hloaded
      cases hloaded

theorem Later.size_le (h : before.Later disk after) : before.cells.size ≤ after.cells.size := by
  induction h with
  | refl => exact Nat.le_refl _
  | get? row key _ ih => exact Nat.le_trans ih (Nat.le_of_eq (row.size_cells_get? key disk _).symm)
  | release row _ ih => exact ih
  | @copy shelf row _ ih =>
    obtain ⟨cells, hshelf, hsize, -⟩ := row.shelf_copyFields shelf row.slots.entries
    show _ ≤ (row.copyFields shelf row.slots.entries).2.cells.size
    rw [hshelf]
    exact Nat.le_trans ih hsize

theorem Later.settled? (h : before.Later disk after) {cell : Nat} {value : Value}
    (hcell : before.settled? cell = some value) : after.settled? cell = some value := by
  induction h with
  | refl => exact hcell
  | get? row key _ ih => exact Row.settled?_of_get? ih row key
  | release row _ ih => exact ih
  | @copy shelf row _ ih =>
    obtain ⟨cells, hshelf, -, hkept⟩ := row.shelf_copyFields shelf row.slots.entries
    show (row.copyFields shelf row.slots.entries).2.settled? cell = some value
    obtain ⟨source, hstate⟩ := settled?_eq_some_iff.mp ih
    rw [hshelf, Shelf.settled?]
    dsimp only
    rw [hkept cell (Array.getElem?_eq_some_iff.mp hstate).1]
    exact ih

end Shelf

namespace Row

variable {disk : Disk} {now after : Shelf} {row : Row} {key : String} {value : Value}

/-! ## Fixed fields -/

/-- A field that is not computed gives the same whenever it is read. -/
theorem get?_of_later (hfaithful : now.Faithful disk) (hlater : now.Later disk after)
    (hplain : row.cellAt? key = none) :
    (row.get? key disk after).1 = (row.get? key disk now).1 := by
  obtain ⟨hkeeps, hmetrics, hartifacts⟩ := hlater.sameLoaders
  have hafter := hlater.faithful hfaithful
  cases hslot : row.slots.get? key with
  | none => rw [get?_of_none hslot, get?_of_none hslot]
  | some slot =>
    rw [get?_of_some hslot, get?_of_some hslot]
    refine congrArg (Except.map some) ?_
    cases slot with
    | value value => rfl
    | metric loader =>
      rw [readSlot]
      cases hstate : now.metrics[loader]? with
      | none =>
        have hgone : after.metrics[loader]? = none := by
          rw [Array.getElem?_eq_none_iff, hmetrics]
          exact Array.getElem?_eq_none_iff.mp hstate
        rw [Shelf.fetchMetric, Shelf.fetchMetric, hstate, hgone]
      | some state =>
        obtain ⟨later, hstays, hcontinues⟩ := hkeeps.metrics loader state hstate
        rw [Shelf.fetchMetric_apply hstate, Shelf.fetchMetric_apply hstays]
        dsimp only
        rw [MetricLoader.fetch_eq_seriesOf (hfaithful.metrics loader state hstate),
          MetricLoader.fetch_eq_seriesOf (hafter.metrics loader later hstays), hcontinues.path,
          hcontinues.log]
    | artifacts loader =>
      rw [readSlot]
      cases hstate : now.artifacts[loader]? with
      | none =>
        have hgone : after.artifacts[loader]? = none := by
          rw [Array.getElem?_eq_none_iff, hartifacts]
          exact Array.getElem?_eq_none_iff.mp hstate
        rw [Shelf.fetchArtifacts, Shelf.fetchArtifacts, hstate, hgone]
      | some state =>
        obtain ⟨later, hstays, hcontinues⟩ := hkeeps.artifacts loader state hstate
        rw [Shelf.fetchArtifacts_apply hstate, Shelf.fetchArtifacts_apply hstays]
        dsimp only
        rw [ArtifactLoader.fetch_eq_groupOf (hfaithful.artifacts loader state hstate),
          ArtifactLoader.fetch_eq_groupOf (hafter.artifacts loader later hstays), hcontinues.run,
          hcontinues.kind, hcontinues.codec]
    | computed cell => simp [cellAt?, hslot] at hplain

/-- The row has a value at the key for good: it gives the value from now on, and if the field
is computed, its cell has the value. -/
structure Fixed (disk : Disk) (now : Shelf) (row : Row) (key : String) (value : Value) : Prop where
  gives (later : Shelf) (hlater : now.Later disk later) :
    (row.get? key disk later).1 = .ok (some value)
  settled (cell : Nat) (hcell : row.cellAt? key = some cell) : now.settled? cell = some value

theorem Fixed.mono (h : row.Fixed disk now key value) (hlater : now.Later disk after) :
    row.Fixed disk after key value where
  gives later hmore := h.gives later (hlater.trans hmore)
  settled cell hcell := hlater.settled? (h.settled cell hcell)

theorem Fixed.unique {other : Value} (h : row.Fixed disk now key value)
    (hother : row.Fixed disk now key other) : value = other :=
  Option.some_inj.mp (Except.ok.inj ((h.gives now .refl).symm.trans (hother.gives now .refl)))

/-- A computed field is fixed once it has a value. -/
theorem fixed_of_settled {cell : Nat} (hcell : row.cellAt? key = some cell)
    (hsettled : now.settled? cell = some value) : row.Fixed disk now key value where
  gives _ hlater := get?_of_settled hcell (hlater.settled? hsettled)
  settled other hother := by
    obtain rfl : cell = other := Option.some_inj.mp (hcell.symm.trans hother)
    exact hsettled

/-- Any other field is fixed from the start. -/
theorem fixed_of_plain (hfaithful : now.Faithful disk) (hplain : row.cellAt? key = none)
    (hvalue : (row.get? key disk now).1 = .ok (some value)) : row.Fixed disk now key value where
  gives _ hlater := (get?_of_later hfaithful hlater hplain).trans hvalue
  settled cell hcell := by
    rw [hplain] at hcell
    cases hcell

end Row

end Logbook
