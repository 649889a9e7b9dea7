import Logbook.Proofs.Row.Fixed

/-!
# Fields that do not depend on when they are read

A computed field without a value asks its function, and the function is told how often it has
been called.  So what the field gives depends, in general, on what has been read before it, also
from other rows: copies share the function.  A field is steady (`Row.Steady`) if nothing of this
matters: it is not computed, or it has its value, or its function gives the same at every call.

## Strategy

No reading changes what the functions are, only how often they have been called
(`Shelf.Later.functions`).  So the contents of a cell decide what computing it gives
(`Shelf.compute_of_steady`), on whatever shelf they are.
-/

namespace Logbook

/-- The field does not give another value when functions have been called more often. -/
def Row.Steady (shelf : Shelf) (row : Row) (key : String) : Prop :=
  ∀ cell source state, row.cellAt? key = some cell → shelf.cells[cell]? = some ⟨source, none⟩ →
    shelf.sources[source]? = some state →
    ∀ first second, state.answer first key = state.answer second key

namespace Shelf

variable {disk : Disk} {before after shelf : Shelf} {key : String}

/-! ## Functions stay what they are -/

theorem functions_call (called : Nat) (key : String) (disk : Disk) (shelf : Shelf) (source : Nat) :
    ((call called key disk shelf).2.sources[source]?).map Source.answer =
      (shelf.sources[source]?).map Source.answer := by
  unfold call
  cases hstate : shelf.sources[called]? with
  | none => rfl
  | some state =>
    dsimp only
    rw [Array.getElem?_setIfInBounds]
    by_cases hsource : called = source
    · subst hsource
      rw [if_pos rfl, if_pos (Array.getElem?_eq_some_iff.mp hstate).1, hstate]
      rfl
    · rw [if_neg hsource]

theorem functions_compute (cell : Nat) (key : String) (disk : Disk) (shelf : Shelf) (source : Nat) :
    ((compute cell key disk shelf).2.sources[source]?).map Source.answer =
      (shelf.sources[source]?).map Source.answer := by
  cases hcell : shelf.cells[cell]? with
  | none => rw [compute_of_absent hcell]
  | some state =>
    obtain ⟨called, _ | value⟩ := state
    · have hcall := functions_call called key disk shelf source
      rw [compute_of_unsettled hcell]
      rcases hrun : call called key disk shelf with ⟨error | value, between⟩ <;>
        rw [hrun] at hcall <;> exact hcall
    · rw [compute_of_settled (settled?_eq_some_iff.mpr ⟨called, hcell⟩)]

theorem functions_readSlot (key : String) (slot : Slot) (disk : Disk) (shelf : Shelf)
    (source : Nat) :
    ((Row.readSlot key slot disk shelf).2.sources[source]?).map Source.answer =
      (shelf.sources[source]?).map Source.answer := by
  cases slot with
  | value value => rfl
  | metric loader =>
    rw [Row.readSlot, fetchMetric]
    cases shelf.metrics[loader]? <;> rfl
  | artifacts loader =>
    rw [Row.readSlot, fetchArtifacts]
    cases shelf.artifacts[loader]? <;> rfl
  | computed cell => exact functions_compute cell key disk shelf source

theorem Later.functions (h : before.Later disk after) (source : Nat) :
    (after.sources[source]?).map Source.answer = (before.sources[source]?).map Source.answer := by
  induction h with
  | refl => rfl
  | @get? shelf row key _ ih =>
    rw [← ih]
    cases hslot : row.slots.get? key with
    | none => rw [Row.get?_of_none hslot]
    | some slot =>
      rw [Row.get?_of_some hslot]
      exact functions_readSlot key slot disk shelf source
  | release row _ ih => exact ih
  | @copy shelf row _ ih =>
    obtain ⟨cells, hshelf, -⟩ := row.shelf_copyFields shelf row.slots.entries
    show ((row.copyFields shelf row.slots.entries).2.sources[source]?).map Source.answer = _
    rw [hshelf]
    exact ih

/-! ## Computing a steady field -/

theorem call_of_steady {source : Nat}
    (hfunctions : (after.sources[source]?).map Source.answer =
      (before.sources[source]?).map Source.answer)
    (hsteady : ∀ state, before.sources[source]? = some state →
      ∀ first second, state.answer first key = state.answer second key) :
    (call source key disk after).1 = (call source key disk before).1 := by
  unfold call
  cases hbefore : before.sources[source]? with
  | none =>
    rw [hbefore] at hfunctions
    rw [Option.map_eq_none_iff.mp hfunctions]
  | some state =>
    rw [hbefore] at hfunctions
    obtain ⟨later, hlater, hsame⟩ := Option.map_eq_some_iff.mp hfunctions
    rw [hlater]
    dsimp only
    rw [hsame]
    exact hsteady state hbefore _ _

theorem fst_compute_of_unsettled {cell source : Nat}
    (hcell : shelf.cells[cell]? = some ⟨source, none⟩) :
    (compute cell key disk shelf).1 = (call source key disk shelf).1 := by
  rw [compute_of_unsettled hcell]
  rcases call source key disk shelf with ⟨_ | _, _⟩ <;> rfl

/-- A cell gives the same on a later shelf, and so does another one with the same contents. -/
theorem compute_of_steady {cell held : Nat} (hlater : before.Later disk after)
    (hcontents : after.cells[held]? = before.cells[cell]?)
    (hsteady : ∀ source state, before.cells[cell]? = some ⟨source, none⟩ →
      before.sources[source]? = some state →
      ∀ first second, state.answer first key = state.answer second key) :
    (compute held key disk after).1 = (compute cell key disk before).1 := by
  cases hcell : before.cells[cell]? with
  | none => rw [compute_of_absent hcell, compute_of_absent (hcontents.trans hcell)]
  | some state =>
    obtain ⟨source, _ | value⟩ := state
    · rw [fst_compute_of_unsettled hcell, fst_compute_of_unsettled (hcontents.trans hcell)]
      exact call_of_steady (hlater.functions source) fun state => hsteady source state hcell
    · rw [compute_of_settled (settled?_eq_some_iff.mpr ⟨source, hcell⟩),
        compute_of_settled (settled?_eq_some_iff.mpr ⟨source, hcontents.trans hcell⟩)]

end Shelf

/-! ## Steady rows -/

namespace Row

variable {disk : Disk} {shelf : Shelf} {row : Row} {key : String}

theorem steady_of_plain (hplain : row.cellAt? key = none) : row.Steady shelf key := by
  intro cell source state hcell
  rw [hplain] at hcell
  cases hcell

/-- Only where the field comes from matters. -/
theorem steady_congr {other : Row} (hslot : row.slots.get? key = other.slots.get? key) :
    row.Steady shelf key ↔ other.Steady shelf key := by
  unfold Steady cellAt?
  rw [hslot]

/-- The values of a row at some keys; null where reading the key gives none. -/
def tupleAt (disk : Disk) (shelf : Shelf) (keys : List String) (row : Row) : List Value :=
  keys.map fun key => ((row.get? key disk shelf).1.toOption.join).getD .null

/-- Reading the row gives a value at each of the keys. -/
def GivesAll (disk : Disk) (shelf : Shelf) (keys : List String) (row : Row) : Prop :=
  ∀ key ∈ keys, ∃ value, (row.get? key disk shelf).1 = .ok (some value)

theorem length_tupleAt (disk : Disk) (shelf : Shelf) (keys : List String) (row : Row) :
    (row.tupleAt disk shelf keys).length = keys.length := List.length_map _

theorem tupleAt_append (disk : Disk) (shelf : Shelf) (first second : List String) (row : Row) :
    row.tupleAt disk shelf (first ++ second) =
      row.tupleAt disk shelf first ++ row.tupleAt disk shelf second := List.map_append

theorem tupleAt_cons {value : Value} (hvalue : (row.get? key disk shelf).1 = .ok (some value))
    (keys : List String) :
    row.tupleAt disk shelf (key :: keys) = value :: row.tupleAt disk shelf keys := by
  rw [tupleAt, List.map_cons, hvalue]
  rfl

theorem givesAll_append {first second : List String} :
    row.GivesAll disk shelf (first ++ second) ↔
      row.GivesAll disk shelf first ∧ row.GivesAll disk shelf second := List.forall_mem_append

theorem givesAll_cons {keys : List String} :
    row.GivesAll disk shelf (key :: keys) ↔
      (∃ value, (row.get? key disk shelf).1 = .ok (some value)) ∧
        row.GivesAll disk shelf keys := List.forall_mem_cons

end Row

end Logbook
