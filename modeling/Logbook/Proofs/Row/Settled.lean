import Logbook.Proofs.Frame.Owned
import Logbook.Proofs.Row.Held

/-!
# A computed field settles once

A computed field has a function, which may answer differently each time it is called.  Whatever
is done with the row, as long as the field is not replaced, the function gives at most one value
for it: the row keeps the first one and gives it from then on, and its lazy view shows a marker
before and the value after (`Row.settlesOnce`).

## Strategy

`Shelf.evaluated` is what the function gives while the field is read, by the count of its calls.
The list of all that it has given goes along with the shelf: it is empty as long as there is
nothing in the cell, and has the value of the cell afterwards (`Shelf.Phase`).  Computing keeps
this (`Phase.compute`), and so does anything else, which leaves the cell alone because no other
field has it (`Row.Housed`).
-/

namespace Logbook

namespace Shelf

variable {disk : Disk} {shelf after : Shelf} {cell : Nat} {key : String} {values : List Value}

/-- How often the function of a computed field has been called. -/
def calls (shelf : Shelf) (cell : Nat) : Nat :=
  ((shelf.cells[cell]?.bind fun state => shelf.sources[state.source]?).map Source.calls).getD 0

/-- What the function of a computed field gives when the field is read: nothing if it is not
called, or fails. -/
def evaluated (cell : Nat) (key : String) (disk : Disk) (shelf : Shelf) : List Value :=
  if shelf.calls cell < (compute cell key disk shelf).2.calls cell then
    (compute cell key disk shelf).1.toOption.toList
  else []

theorem evaluated_of_settled {value : Value} (hsettled : shelf.settled? cell = some value) :
    evaluated cell key disk shelf = [] := by
  rw [evaluated, compute_of_settled hsettled, if_neg (Nat.lt_irrefl _)]

theorem evaluated_of_error {error : Error}
    (hfails : (compute cell key disk shelf).1 = .error error) :
    evaluated cell key disk shelf = [] := by
  rw [evaluated, hfails]
  exact ite_self []

/-- A value for an empty cell comes from a call. -/
theorem evaluated_of_ok {source : Nat} {value : Value}
    (hcell : shelf.cells[cell]? = some ⟨source, none⟩)
    (hgives : (compute cell key disk shelf).1 = .ok value) :
    evaluated cell key disk shelf = [value] := by
  have hcalled : shelf.calls cell < (compute cell key disk shelf).2.calls cell := by
    rw [compute_of_unsettled hcell] at hgives ⊢
    unfold call at hgives ⊢
    cases hsource : shelf.sources[source]? with
    | none =>
      rw [hsource] at hgives
      cases hgives
    | some state =>
      rw [hsource] at hgives
      dsimp only at hgives ⊢
      cases hanswer : state.answer (state.calls + 1) key with
      | error error =>
        rw [hanswer] at hgives
        cases hgives
      | ok given =>
        -- The value is in the cell now, but the cell has the function it had.
        have hbound : source < shelf.sources.size := (Array.getElem?_eq_some_iff.mp hsource).1
        have hmodified : (shelf.cells.modify cell fun state =>
            { state with value := some given })[cell]? = some ⟨source, some given⟩ := by
          rw [Array.getElem?_modify, if_pos rfl, hcell]
          rfl
        simp only [calls, hcell, hmodified, Option.bind_some, hsource,
          Array.getElem?_setIfInBounds, if_true, hbound, Option.map_some, Option.getD_some]
        exact Nat.lt_succ_self _
  rw [evaluated, if_pos hcalled, hgives]
  rfl

/-- All that the function has given for a computed field: nothing as long as the cell is empty,
and the value in the cell afterwards. -/
inductive Phase (cell : Nat) (shelf : Shelf) : List Value → Prop
  | fresh {source : Nat} (h : shelf.cells[cell]? = some ⟨source, none⟩) : Phase cell shelf []
  | settled {value : Value} (h : shelf.settled? cell = some value) : Phase cell shelf [value]

theorem Phase.congr (h : Phase cell shelf values)
    (hcell : after.cells[cell]? = shelf.cells[cell]?) : Phase cell after values := by
  cases h with
  | fresh h => exact .fresh (hcell.trans h)
  | settled h =>
    refine .settled ?_
    rw [Shelf.settled?, hcell]
    exact h

theorem Phase.unique {others : List Value} (h : Phase cell shelf values)
    (hothers : Phase cell shelf others) : values = others := by
  have hempty : ∀ {source}, shelf.cells[cell]? = some ⟨source, none⟩ →
      shelf.settled? cell = none := fun hcell => by rw [settled?, hcell]; rfl
  cases h with
  | fresh h =>
    cases hothers with
    | fresh => rfl
    | settled hother =>
      rw [hempty h] at hother
      cases hother
  | settled h =>
    cases hothers with
    | fresh hother =>
      rw [hempty hother] at h
      cases h
    | settled hother => rw [Option.some_inj.mp (h.symm.trans hother)]

/-- An empty cell stays empty when the function fails. -/
theorem cells_compute_of_error {error : Error}
    (hfails : (compute cell key disk shelf).1 = .error error) :
    (compute cell key disk shelf).2.cells = shelf.cells := by
  obtain hsame | ⟨value, hgives, -⟩ := cells_compute cell key disk shelf
  · exact hsame
  · rw [hfails] at hgives
    cases hgives

/-- **Computing keeps the list of what the function has given.** -/
theorem Phase.compute (h : Phase cell shelf values) (key : String) (disk : Disk) :
    Phase cell (compute cell key disk shelf).2 (values ++ evaluated cell key disk shelf) := by
  cases h with
  | settled h =>
    rw [evaluated_of_settled h, compute_of_settled h, List.append_nil]
    exact .settled h
  | fresh h =>
    rw [List.nil_append]
    cases hrun : Shelf.compute cell key disk shelf with
    | mk outcome later =>
      cases outcome with
      | error error =>
        have hfails : (Shelf.compute cell key disk shelf).1 = .error error := by rw [hrun]
        have hcells := cells_compute_of_error hfails
        rw [hrun] at hcells
        rw [evaluated_of_error hfails]
        exact (Phase.fresh h).congr (congrArg (·[cell]?) hcells)
      | ok value =>
        rw [evaluated_of_ok h (by rw [hrun])]
        exact .settled (settled?_compute hrun)

/-! ## Functions that are not called any more -/

variable {source : Nat} {row : Row}

/-- Every field with the function has a value. -/
def Spent (source : Nat) (shelf : Shelf) : Prop :=
  ∀ cell : Nat, shelf.cells[cell]? ≠ some (⟨source, none⟩ : Cell)

theorem Spent.compute (h : shelf.Spent source) (cell : Nat) (key : String) (disk : Disk) :
    (compute cell key disk shelf).2.Spent source ∧
      (Shelf.compute cell key disk shelf).2.sources[source]? = shelf.sources[source]? := by
  cases hcell : shelf.cells[cell]? with
  | none =>
    rw [compute_of_absent hcell]
    exact ⟨h, rfl⟩
  | some state =>
    obtain ⟨asked, _ | value⟩ := state
    -- An empty cell is computed with another function, and is the only one that is filled.
    · have hother : asked ≠ source := fun heq => h cell (heq ▸ hcell)
      have hcells := cells_call asked key disk shelf
      have hsources : (call asked key disk shelf).2.sources[source]? = shelf.sources[source]? := by
        unfold call
        cases shelf.sources[asked]? with
        | none => rfl
        | some state => exact Array.getElem?_setIfInBounds_ne hother
      rw [compute_of_unsettled hcell]
      rcases hcall : call asked key disk shelf with ⟨error | value, between⟩ <;>
        rw [hcall] at hcells hsources <;> refine ⟨fun found hfound => ?_, hsources⟩
      · rw [hcells] at hfound
        exact h found hfound
      · dsimp only at hcells hfound
        rw [hcells, Array.getElem?_modify] at hfound
        split at hfound
        · obtain ⟨state, -, hstate⟩ := Option.map_eq_some_iff.mp hfound
          cases congrArg Cell.value hstate
        · exact h found hfound
    · rw [compute_of_settled (settled?_eq_some_iff.mpr ⟨asked, hcell⟩)]
      exact ⟨h, rfl⟩

theorem Spent.get? (h : shelf.Spent source) (row : Row) (key : String) (disk : Disk) :
    (row.get? key disk shelf).2.Spent source ∧
      (row.get? key disk shelf).2.sources[source]? = shelf.sources[source]? := by
  cases hslot : row.slots.get? key with
  | none =>
    rw [Row.get?_of_none hslot]
    exact ⟨h, rfl⟩
  | some slot =>
    rw [Row.get?_of_some hslot]
    cases slot with
    | value value => exact ⟨h, rfl⟩
    | metric loader =>
      rw [Row.readSlot, fetchMetric]
      cases shelf.metrics[loader]? <;> exact ⟨h, rfl⟩
    | artifacts loader =>
      rw [Row.readSlot, fetchArtifacts]
      cases shelf.artifacts[loader]? <;> exact ⟨h, rfl⟩
    | computed cell => exact h.compute cell key disk

/-- The cells of a copy have what others have. -/
theorem Spent.copyFields (h : shelf.Spent source) (row : Row) (fields : List (String × Slot)) :
    (row.copyFields shelf fields).2.Spent source := by
  induction fields generalizing row shelf with
  | nil => exact h
  | cons field fields ih =>
    obtain ⟨key, slot⟩ := field
    cases slot with
    | computed cell =>
      rw [Row.copyFields, copyCell]
      cases hcell : shelf.cells[cell]? with
      | none => exact ih h _
      | some state =>
        refine ih (fun found hfound => ?_) _
        have hfound : (shelf.cells.push state)[found]? = some (⟨source, none⟩ : Cell) := hfound
        rw [Array.getElem?_push] at hfound
        split at hfound
        · exact h cell (hcell.trans hfound)
        · exact h found hfound
    | value value => exact ih h row
    | metric loader => exact ih h row
    | artifacts loader => exact ih h row

/-- **A function is not called any more once every field that has it has a value**, whatever is
read, released and copied. -/
theorem Spent.later {now : Shelf} (h : shelf.Spent source) (hlater : shelf.Later disk now) :
    now.Spent source ∧ now.sources[source]? = shelf.sources[source]? := by
  induction hlater with
  | refl => exact ⟨h, rfl⟩
  | get? row key _ ih =>
    obtain ⟨hspent, hsource⟩ := ih.1.get? row key disk
    exact ⟨hspent, hsource.trans ih.2⟩
  | release row _ ih => exact ih
  | @copy before row _ ih =>
    refine ⟨ih.1.copyFields row row.slots.entries, ?_⟩
    obtain ⟨cells, hshelf, -⟩ := row.shelf_copyFields before row.slots.entries
    show (row.copyFields before row.slots.entries).2.sources[source]? = _
    rw [hshelf]
    exact ih.2

end Shelf

namespace Row

variable {key : String} {state : Row × Shelf} {values : List Value}

/-! ## What is done with a row -/

/-- What is done with a row. -/
inductive Use where
  /-- Reads a field. -/
  | get (disk : Disk) (key : String)
  /-- Reads all fields. -/
  | materialize (disk : Disk)
  /-- Looks at the lazy view. -/
  | view
  /-- Gives a field a value. -/
  | insert (key : String) (value : Value)
  /-- Gives a field a function that computes it. -/
  | insertComputed (key : String) (answer : Nat → String → Except Error Value)

/-- A use that does not replace the field. -/
def Use.Spares (key : String) : Use → Prop
  | insert other _ => other ≠ key
  | insertComputed other _ => other ≠ key
  | get _ _ | materialize _ | view => True

/-- The row and the shelf after a use. -/
def Use.step (state : Row × Shelf) : Use → Row × Shelf
  | get disk key => (state.1, (state.1.get? key disk state.2).2)
  | materialize disk => (state.1, (state.1.materialize disk state.2).2)
  | view => state
  | insert key value => (state.1.insert key (.value value), state.2)
  | insertComputed key answer =>
      let (cell, shelf) := state.2.addComputed answer
      (state.1.insert key (.computed cell), shelf)

/-- What the function of a computed field gives when the field of a row is read. -/
def evaluated (row : Row) (key : String) (disk : Disk) (shelf : Shelf) : List Value :=
  match row.cellAt? key with
  | some cell => Shelf.evaluated cell key disk shelf
  | none => []

/-- The shelves on which the field with a key is read when fields are read in order, up to one
that fails. -/
def visits (key : String) (disk : Disk) : List (String × Slot) → Shelf → List Shelf
  | [], _ => []
  | (name, slot) :: fields, shelf =>
      (if name = key then [shelf] else []) ++
        match readSlot name slot disk shelf with
        | (.ok _, after) => visits key disk fields after
        | (.error _, _) => []

/-- What the function of the field gives in a use of the row. -/
def Use.evaluations (key : String) (state : Row × Shelf) : Use → List Value
  | get disk other => if other = key then state.1.evaluated key disk state.2 else []
  | materialize disk =>
      (visits key disk state.1.slots.entries state.2).flatMap (state.1.evaluated key disk)
  | view | insert _ _ | insertComputed _ _ => []

/-- The row and the shelf after some uses. -/
def after (state : Row × Shelf) (uses : List Use) : Row × Shelf := uses.foldl Use.step state

/-- What the function of the field gives in some uses of the row. -/
def evaluations (key : String) : Row × Shelf → List Use → List Value
  | _, [] => []
  | state, use :: uses => use.evaluations key state ++ evaluations key (use.step state) uses

theorem after_append (state : Row × Shelf) (first second : List Use) :
    after state (first ++ second) = after (after state first) second :=
  List.foldl_append

theorem evaluations_append (key : String) (state : Row × Shelf) (first second : List Use) :
    evaluations key state (first ++ second) =
      evaluations key state first ++ evaluations key (after state first) second := by
  induction first generalizing state with
  | nil => rfl
  | cons use first ih =>
    rw [List.cons_append, evaluations, evaluations, ih, List.append_assoc]
    rfl

/-! ## The field through one use -/

/-- The field is computed in a cell that no other field has, and these are the values that its
function has given. -/
structure Keeps (key : String) (state : Row × Shelf) (values : List Value) : Prop where
  housed : state.1.Housed state.2
  phase : ∃ cell, state.1.cellAt? key = some cell ∧ Shelf.Phase cell state.2 values

theorem evaluated_of_cellAt? {row : Row} {cell : Nat} (hcell : row.cellAt? key = some cell) :
    row.evaluated key = Shelf.evaluated cell key := by
  funext disk shelf
  rw [evaluated, hcell]

theorem Keeps.get (h : Keeps key state values) (disk : Disk) (other : String) :
    Keeps key (state.1, (state.1.get? other disk state.2).2)
      (values ++ if other = key then state.1.evaluated key disk state.2 else []) := by
  obtain ⟨cell, hcell, hphase⟩ := h.phase
  refine ⟨h.housed.mono (Nat.le_of_eq (state.1.size_cells_get? other disk state.2).symm), cell,
    hcell, ?_⟩
  by_cases hother : other = key
  · subst hother
    rw [if_pos rfl, evaluated_of_cellAt? hcell, get?_of_some (cellAt?_eq_some_iff.mp hcell)]
    exact hphase.compute other disk
  · rw [if_neg hother, List.append_nil]
    refine hphase.congr (getElem?_cells_get? fun hown => hother ?_)
    exact h.housed.own other key cell hown hcell

/-- Reads a field, with its key. -/
def readField (field : String × Slot) : Reading (String × Value) :=
  return (field.1, ← readSlot field.1 field.2)

theorem readField_apply (name : String) (slot : Slot) (disk : Disk) (shelf : Shelf) :
    readField (name, slot) disk shelf =
      ((readSlot name slot disk shelf).1.map (name, ·), (readSlot name slot disk shelf).2) := by
  show (readSlot name slot >>= fun value => return (name, value) : Reading (String × Value))
    disk shelf = _
  rw [Reading.bind_apply]
  rcases readSlot name slot disk shelf with ⟨_ | _, _⟩ <;> rfl

theorem Keeps.readFields {row : Row} {shelf : Shelf} {fields : List (String × Slot)}
    (h : Keeps key (row, shelf) values)
    (hfields : ∀ field ∈ fields, row.slots.get? field.1 = some field.2) (disk : Disk) :
    Keeps key (row, (fields.mapM readField disk shelf).2)
      (values ++ (visits key disk fields shelf).flatMap (row.evaluated key disk)) := by
  induction fields generalizing shelf values with
  | nil => rwa [visits, List.flatMap_nil, List.append_nil]
  | cons field fields ih =>
    obtain ⟨name, slot⟩ := field
    -- To read all fields is to read one, and the others after it unless it fails.
    have hread := h.get disk name
    have hvisit : (if name = key then [shelf] else []).flatMap (row.evaluated key disk) =
        if name = key then row.evaluated key disk shelf else [] := by
      rw [apply_ite (List.flatMap (row.evaluated key disk)), List.flatMap_singleton,
        List.flatMap_nil]
    rw [get?_of_some (hfields _ List.mem_cons_self)] at hread
    rw [List.mapM_cons, Reading.bind_apply, readField_apply, visits, List.flatMap_append, hvisit,
      ← List.append_assoc]
    cases hrun : readSlot name slot disk shelf with
    | mk outcome after =>
      rw [hrun] at hread
      cases outcome with
      | error error => rwa [List.flatMap_nil, List.append_nil]
      | ok value =>
        have hrest := ih hread fun other hother => hfields other (List.mem_cons_of_mem _ hother)
        dsimp only [Except.map]
        rwa [Reading.shelf_bind_pure]

theorem Keeps.materialize (h : Keeps key state values) (disk : Disk) :
    Keeps key (state.1, (state.1.materialize disk state.2).2)
      (values ++ (visits key disk state.1.slots.entries state.2).flatMap
        (state.1.evaluated key disk)) := by
  have hshelf : (state.1.materialize disk state.2).2 =
      (state.1.slots.entries.mapM readField disk state.2).2 := Reading.shelf_bind_pure ..
  rw [hshelf]
  exact h.readFields (fun field hfield => SortedMap.get?_eq_some_iff.mpr hfield) disk

theorem Housed.insert_value {row : Row} {shelf : Shelf} (h : row.Housed shelf) (key : String)
    (value : Value) : (row.insert key (.value value)).Housed shelf := by
  have hcell : ∀ name cell, (row.insert key (.value value)).cellAt? name = some cell →
      row.cellAt? name = some cell := by
    intro name cell hcell
    rw [cellAt?_insert] at hcell
    by_cases hname : name = key
    · rw [if_pos hname] at hcell
      cases hcell
    · rwa [if_neg hname] at hcell
  exact ⟨fun name cell hname => h.bound name cell (hcell name cell hname),
    fun name other cell hname hother =>
      h.own name other cell (hcell name cell hname) (hcell other cell hother)⟩

theorem Housed.insert_computed {row : Row} {shelf : Shelf} (h : row.Housed shelf) (key : String)
    (answer : Nat → String → Except Error Value) :
    (row.insert key (.computed (shelf.addComputed answer).1)).Housed
      (shelf.addComputed answer).2 := by
  have howned : (⟨[row]⟩ : Frame).Owned shelf :=
    ⟨List.forall_mem_singleton.mpr h, List.pairwise_singleton Apart row⟩
  exact (howned.insert_computed_head key answer).housed _ List.mem_cons_self

/-- **What the function has given stays known in any use that does not replace the field.** -/
theorem Keeps.step (h : Keeps key state values) {use : Use} (hspares : use.Spares key) :
    Keeps key (use.step state) (values ++ use.evaluations key state) := by
  obtain ⟨cell, hcell, hphase⟩ := h.phase
  cases use with
  | get disk other => exact h.get disk other
  | materialize disk => exact h.materialize disk
  | view =>
    rw [Use.evaluations, List.append_nil]
    exact h
  | insert other value =>
    rw [Use.evaluations, List.append_nil]
    refine ⟨h.housed.insert_value other value, cell, ?_, hphase⟩
    rw [Use.step, cellAt?_insert, if_neg (Ne.symm hspares)]
    exact hcell
  | insertComputed other answer =>
    rw [Use.evaluations, List.append_nil]
    refine ⟨h.housed.insert_computed other answer, cell, ?_, hphase.congr ?_⟩
    · rw [Use.step, cellAt?_insert, if_neg (Ne.symm hspares)]
      exact hcell
    · -- The new field has its cell behind the others.
      have hbound := h.housed.bound key cell hcell
      exact (Array.getElem?_push_lt hbound).trans (Array.getElem?_eq_getElem hbound).symm

/-! ## The field through all uses -/

variable {uses : List Use}

theorem Keeps.after (h : Keeps key state values) (hspares : ∀ use ∈ uses, use.Spares key) :
    Keeps key (after state uses) (values ++ evaluations key state uses) := by
  induction uses generalizing state values with
  | nil => rwa [evaluations, List.append_nil]
  | cons use uses ih =>
    rw [evaluations, ← List.append_assoc]
    exact ih (h.step (hspares use List.mem_cons_self)) fun other hother =>
      hspares other (List.mem_cons_of_mem _ hother)

/-! ## What the row shows -/

theorem Keeps.view_of_nil (h : Keeps key state []) :
    (state.1.view state.2).get? key = some Marker.computed.value := by
  obtain ⟨cell, hcell, hphase⟩ := h.phase
  cases hphase with
  | fresh hempty =>
    rw [view, SortedMap.get?_mapValues, cellAt?_eq_some_iff.mp hcell]
    rw [Option.map_some, viewSlot, Shelf.settled?, hempty]
    rfl

theorem Keeps.held {value : Value} (h : Keeps key state [value]) :
    state.1.held? state.2 key = some value := by
  obtain ⟨cell, hcell, hphase⟩ := h.phase
  cases hphase with
  | settled hsettled =>
    exact held?_eq_some_iff.mpr (.inr ⟨cell, cellAt?_eq_some_iff.mp hcell, hsettled⟩)

/-- What is in the cell says what the function has given. -/
theorem Keeps.unique {others : List Value} (h : Keeps key state values)
    (hothers : Keeps key state others) : values = others := by
  obtain ⟨cell, hcell, hphase⟩ := h.phase
  obtain ⟨other, hother, hothers⟩ := hothers.phase
  obtain rfl : cell = other := Option.some_inj.mp (hcell.symm.trans hother)
  exact hphase.unique hothers

theorem Keeps.length_le (h : Keeps key state values) : values.length ≤ 1 := by
  obtain ⟨_, -, _ | _⟩ := h.phase
  · exact Nat.zero_le 1
  · exact Nat.le_refl 1

/-- The first value is the last. -/
theorem Keeps.of_append {value : Value} (h : Keeps key state (value :: values)) :
    Keeps key state [value] := by
  have hnone : values = [] := List.length_eq_zero_iff.mp (Nat.le_zero.mp (Nat.le_of_succ_le_succ
    h.length_le))
  rwa [hnone] at h

theorem Keeps.of_get? {disk : Disk} {after : Shelf} {value : Value} (h : Keeps key state values)
    (hget : state.1.get? key disk state.2 = (.ok (some value), after)) :
    Keeps key (state.1, after) [value] := by
  obtain ⟨cell, hcell, -⟩ := h.phase
  have hafter := h.get disk key
  rw [hget] at hafter
  exact ⟨hafter.housed, cell, hcell, .settled (settled?_get? hcell hget)⟩

/-- A field that is read among others gives the value that it keeps. -/
theorem Keeps.of_readFields {row : Row} {shelf after : Shelf} {fields : List (String × Slot)}
    (h : Keeps key (row, shelf) values)
    (hfields : ∀ field ∈ fields, row.slots.get? field.1 = some field.2) {disk : Disk}
    {results : List (String × Value)} {value : Value}
    (hrun : fields.mapM readField disk shelf = (.ok results, after))
    (hvalue : (key, value) ∈ results) : Keeps key (row, after) [value] := by
  induction fields generalizing shelf values results with
  | nil =>
    cases hrun
    cases hvalue
  | cons field fields ih =>
    obtain ⟨name, slot⟩ := field
    obtain ⟨hslot, hothers⟩ := List.forall_mem_cons.mp hfields
    rw [List.mapM_cons] at hrun
    obtain ⟨first, between, hfirst, hrest⟩ := Reading.bind_eq_ok.mp hrun
    obtain ⟨rest, last, hlast, hpure⟩ := Reading.bind_eq_ok.mp hrest
    cases hpure
    have hget : ∃ given, first = (name, given) ∧
        row.get? name disk shelf = (.ok (some given), between) := by
      rw [readField_apply] at hfirst
      rw [get?_of_some hslot]
      rcases hread : readSlot name slot disk shelf with ⟨error | given, later⟩ <;>
        rw [hread] at hfirst <;> cases hfirst
      exact ⟨given, rfl, rfl⟩
    obtain ⟨given, rfl, hget⟩ := hget
    obtain hhead | hmem := List.mem_cons.mp hvalue
    · obtain ⟨rfl, rfl⟩ := Prod.mk.inj hhead
      have hafter := (h.of_get? hget).readFields hothers disk
      rw [hlast] at hafter
      exact hafter.of_append
    · have hbetween := h.get disk name
      rw [hget] at hbetween
      exact ih hbetween hothers hlast hmem

theorem keys_of_readFields {fields : List (String × Slot)} {disk : Disk} {shelf after : Shelf}
    {results : List (String × Value)}
    (hrun : fields.mapM readField disk shelf = (.ok results, after)) :
    results.map Prod.fst = fields.map Prod.fst := by
  induction fields generalizing shelf results with
  | nil =>
    cases hrun
    rfl
  | cons field fields ih =>
    rw [List.mapM_cons] at hrun
    obtain ⟨first, between, hfirst, hrest⟩ := Reading.bind_eq_ok.mp hrun
    obtain ⟨rest, last, hlast, hpure⟩ := Reading.bind_eq_ok.mp hrest
    obtain ⟨value, read, -, hvalue⟩ := Reading.bind_eq_ok.mp hfirst
    cases hpure
    cases hvalue
    rw [List.map_cons, List.map_cons, ih hlast]

theorem Keeps.of_materialize {disk : Disk} {after : Shelf} {document : Document}
    (h : Keeps key state values)
    (hrun : state.1.materialize disk state.2 = (.ok document, after)) :
    ∃ value, document.get? key = some value ∧ Keeps key (state.1, after) [value] := by
  obtain ⟨cell, hcell, -⟩ := h.phase
  obtain ⟨fields, last, hfields, hpure⟩ :=
    Reading.bind_eq_ok.mp (show (state.1.slots.entries.mapM readField >>= fun fields =>
      return SortedMap.ofList fields : Reading Document) disk state.2 = _ from hrun)
  cases hpure
  have hkeys : key ∈ fields.map Prod.fst := by
    rw [keys_of_readFields hfields]
    exact List.mem_map_of_mem (SortedMap.mem_of_get? (cellAt?_eq_some_iff.mp hcell))
  obtain ⟨value, hvalue⟩ := SortedMap.exists_get?_ofList hkeys
  exact ⟨value, hvalue, h.of_readFields (fun field hfield => SortedMap.get?_eq_some_iff.mpr hfield)
    hfields (SortedMap.mem_of_get?_ofList hvalue)⟩

/-! ## Settling -/

/-- The field settles on the first value that its function gives, whatever else is done with the
row. -/
structure SettlesOnce (key : String) (start : Row × Shelf) : Prop where
  /-- The function gives at most one value. -/
  once (uses : List Use) (hspares : ∀ use ∈ uses, use.Spares key) :
    (evaluations key start uses).length ≤ 1
  /-- Before, the lazy view shows a marker. -/
  before (uses : List Use) (hspares : ∀ use ∈ uses, use.Spares key)
    (hnone : evaluations key start uses = []) :
    ((after start uses).1.view (after start uses).2).get? key = some Marker.computed.value
  /-- A field that is read has the value that it gives. -/
  got (uses : List Use) (hspares : ∀ use ∈ uses, use.Spares key) (disk : Disk) (value : Value)
    (hget : ((after start uses).1.get? key disk (after start uses).2).1 = .ok (some value)) :
    evaluations key start (uses ++ [.get disk key]) = [value]
  /-- So has one that is read among all fields. -/
  materialized (uses : List Use) (hspares : ∀ use ∈ uses, use.Spares key) (disk : Disk)
    (document : Document)
    (hall : ((after start uses).1.materialize disk (after start uses).2).1 = .ok document) :
    ∃ value, document.get? key = some value ∧
      evaluations key start (uses ++ [.materialize disk]) = [value]
  /-- The value stays whatever is done next. -/
  final (uses more : List Use) (hspares : ∀ use ∈ uses ++ more, use.Spares key) (value : Value)
    (hvalue : evaluations key start uses = [value]) :
    evaluations key start (uses ++ more) = [value]
  /-- The field gives this value from then on, and the lazy view shows it. -/
  settled (uses : List Use) (hspares : ∀ use ∈ uses, use.Spares key) (value : Value)
    (hvalue : evaluations key start uses = [value]) :
    ((after start uses).1.view (after start uses).2).get? key = some value ∧
    ∀ disk, (after start uses).1.get? key disk (after start uses).2 =
      (.ok (some value), (after start uses).2)

theorem keeps_of_fresh {row : Row} {shelf : Shelf} {cell source : Nat}
    (hslot : row.slots.get? key = some (.computed cell))
    (hfresh : shelf.cells[cell]? = some ⟨source, none⟩) (hhoused : row.Housed shelf) :
    Keeps key (row, shelf) [] :=
  ⟨hhoused, cell, cellAt?_eq_some_iff.mpr hslot, .fresh hfresh⟩

/-- **A computed field that has not been read settles on the first value that its function
gives.** -/
theorem settlesOnce {row : Row} {shelf : Shelf} {cell source : Nat}
    (hslot : row.slots.get? key = some (.computed cell))
    (hfresh : shelf.cells[cell]? = some ⟨source, none⟩) (hhoused : row.Housed shelf) :
    SettlesOnce key (row, shelf) := by
  have hkeeps : ∀ uses : List Use, (∀ use ∈ uses, use.Spares key) →
      Keeps key (Row.after (row, shelf) uses) (evaluations key (row, shelf) uses) :=
    fun _ hspares => (keeps_of_fresh hslot hfresh hhoused).after hspares
  refine
    { once := fun uses hspares => (hkeeps uses hspares).length_le
      before := fun uses hspares hnone => ?before
      got := fun uses hspares disk value hget => ?got
      materialized := fun uses hspares disk document hall => ?materialized
      final := fun uses more hspares value hvalue => ?final
      settled := fun uses hspares value hvalue => ?settled }
  case before =>
    have h := hkeeps uses hspares
    rw [hnone] at h
    exact h.view_of_nil
  case final =>
    have h := hkeeps (uses ++ more) hspares
    rw [evaluations_append, hvalue] at h ⊢
    exact h.unique h.of_append
  case settled =>
    have h := hkeeps uses hspares
    rw [hvalue] at h
    exact ⟨view_of_held h.held, get?_of_held h.held⟩
  case got =>
    have hread : (Use.get disk key).Spares key := trivial
    have h := hkeeps (uses ++ [.get disk key])
      (List.forall_mem_append.mpr ⟨hspares, List.forall_mem_singleton.mpr hread⟩)
    rw [after_append] at h
    exact h.unique ((hkeeps uses hspares).of_get? (Prod.ext hget rfl))
  case materialized =>
    obtain ⟨value, hvalue, hread⟩ := (hkeeps uses hspares).of_materialize (Prod.ext hall rfl)
    have hmaterialize : (Use.materialize disk).Spares key := trivial
    have h := hkeeps (uses ++ [.materialize disk])
      (List.forall_mem_append.mpr ⟨hspares, List.forall_mem_singleton.mpr hmaterialize⟩)
    rw [after_append] at h
    exact ⟨value, hvalue, h.unique hread⟩

end Row

end Logbook
