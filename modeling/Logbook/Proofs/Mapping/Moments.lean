import Logbook.Mapping.Summary
import Logbook.Proofs.Mapping.Calls

/-!
# Mean and deviation of a column

The mean and the deviation of a column are well shaped.  A column of numbers has one of each, a
column with a series among its cells has as many as its shortest row, and each of them is that of
the numbers which stand at its place, one for each row.  There is an error exactly if a cell or an
item of a series is not a number (`Summary.mean_deviation_spec`).

Both can be computed by adding the rows one after the other to two buffers, which have the length
of the first row, and dividing at the end (`Summary.moments`).  This halts at a place outside a
buffer and at a division by the number of no rows.  Neither ever happens, and what is left in the
buffers is the mean and the deviation (`Summary.moments_eq`).

## Strategy

The rows have been cut to the length of the shortest, so they are all as long as the buffers
(`Summary.uniform_series`).  A row is added from left to right: what stands before the place has
been changed already, and the rest of the buffer is as long as the rest of the row
(`Summary.addFrom_eq`).  So a buffer is the old one and the row, added place by place, and a place
of it has been given the numbers that the rows have there (`Summary.getElem?_foldl_zipWith`).
-/

namespace Logbook

namespace Summary

/-! ## Two buffers -/

/-- Why accumulating halts. -/
inductive Accident where
  /-- A place is outside a buffer. -/
  | outside
  /-- There are no rows to divide by the number of. -/
  | noRows
  deriving DecidableEq

/-- The sums and the sums of squares of the numbers at each place. -/
structure Buffers where
  /-- The sums, and in the end the means. -/
  sums : List Binary64
  /-- The sums of squares, and in the end the deviations. -/
  squares : List Binary64

/-- The number at a place of a buffer. -/
def fetch (buffer : List Binary64) (place : Nat) : Except Accident Binary64 :=
  match buffer[place]? with
  | some number => .ok number
  | none => .error .outside

/-- Another number at a place of a buffer. -/
def store (buffer : List Binary64) (place : Nat) (number : Binary64) :
    Except Accident (List Binary64) :=
  if place < buffer.length then .ok (buffer.set place number) else .error .outside

/-- The quotient of a number and the number of rows. -/
def share (rows : Nat) (number : Binary64) : Except Accident Binary64 :=
  if rows = 0 then .error .noRows else .ok (number / Binary64.ofInt rows)

/-- Adds the numbers of a row to the places from the given one on. -/
def addFrom (place : Nat) (buffers : Buffers) : List Binary64 → Except Accident Buffers
  | [] => .ok buffers
  | number :: row => do
      let sum ← fetch buffers.sums place
      let sums ← store buffers.sums place (sum + number)
      let square ← fetch buffers.squares place
      let squares ← store buffers.squares place (square + number * number)
      addFrom (place + 1) ⟨sums, squares⟩ row

/-- Makes the mean and the deviation at a place of what has been added up there. -/
def divideAt (rows : Nat) (buffers : Buffers) (place : Nat) : Except Accident Buffers := do
  let mean ← share rows (← fetch buffers.sums place)
  let sums ← store buffers.sums place mean
  let square ← share rows (← fetch buffers.squares place)
  let squares ← store buffers.squares place ((square - mean * mean).max 0).sqrt
  return ⟨sums, squares⟩

/-- The means and the deviations of rows, accumulated in buffers of the length of the first. -/
def moments (runs : List (List Binary64)) : Except Accident Buffers := do
  let length := (runs.head?.getD []).length
  let empty := List.replicate length 0
  let added ← runs.foldlM (addFrom 0) ⟨empty, empty⟩
  (List.range length).foldlM (divideAt runs.length) added

/-! ## Places of a buffer -/

section Places

variable {before after : List Binary64} {number other : Binary64}

theorem fetch_append : fetch (before ++ number :: after) before.length = .ok number := by
  simp [fetch]

theorem store_append :
    store (before ++ number :: after) before.length other = .ok (before ++ other :: after) := by
  simp [store]

theorem share_of_pos {rows : Nat} (hrows : 0 < rows) :
    share rows number = .ok (number / Binary64.ofInt rows) :=
  if_neg (Nat.pos_iff_ne_zero.mp hrows)

end Places

/-! ## Adding rows -/

/-- The square of a number, added to a sum of squares. -/
def addSquare (total number : Binary64) : Binary64 := total + number * number

/-- **A row that is as long as the rest of the buffers is added to it place by place.** -/
theorem addFrom_eq (row before beforeSquares sums squares : List Binary64)
    (hbefore : beforeSquares.length = before.length) (hsums : sums.length = row.length)
    (hsquares : squares.length = row.length) :
    addFrom before.length ⟨before ++ sums, beforeSquares ++ squares⟩ row =
      .ok ⟨before ++ List.zipWith (· + ·) sums row,
        beforeSquares ++ List.zipWith addSquare squares row⟩ := by
  induction row generalizing before beforeSquares sums squares with
  | nil =>
    obtain rfl := List.length_eq_zero_iff.mp hsums
    obtain rfl := List.length_eq_zero_iff.mp hsquares
    rfl
  | cons number row ih =>
    obtain ⟨sum, sums, rfl⟩ := List.exists_cons_of_length_eq_add_one hsums
    obtain ⟨square, squares, rfl⟩ := List.exists_cons_of_length_eq_add_one hsquares
    have hfetch : fetch (beforeSquares ++ square :: squares) before.length = .ok square :=
      hbefore ▸ fetch_append
    have hstore : store (beforeSquares ++ square :: squares) before.length
        (square + number * number) = .ok (beforeSquares ++ addSquare square number :: squares) :=
      hbefore ▸ store_append
    -- What has been changed now counts to what stands before.
    have hrest := ih (before ++ [sum + number]) (beforeSquares ++ [addSquare square number]) sums
      squares (by simp [hbefore]) (by simpa using hsums) (by simpa using hsquares)
    rw [List.length_append, List.length_singleton] at hrest
    simp only [addFrom, fetch_append, store_append, hfetch, hstore, Outcome.ok_bind]
    simpa using hrest

/-- Rows of one length are added to buffers of that length. -/
theorem foldlM_addFrom {runs : List (List Binary64)} {sums squares : List Binary64}
    {length : Nat} (hruns : ∀ run ∈ runs, run.length = length) (hsums : sums.length = length)
    (hsquares : squares.length = length) :
    runs.foldlM (addFrom 0) ⟨sums, squares⟩ =
      .ok ⟨runs.foldl (List.zipWith (· + ·)) sums,
        runs.foldl (List.zipWith addSquare) squares⟩ := by
  induction runs generalizing sums squares with
  | nil => rfl
  | cons run runs ih =>
    obtain ⟨hrun, hrest⟩ := List.forall_mem_cons.mp hruns
    have hadd : addFrom 0 ⟨sums, squares⟩ run =
        .ok ⟨List.zipWith (· + ·) sums run, List.zipWith addSquare squares run⟩ :=
      addFrom_eq run [] [] sums squares rfl (hsums.trans hrun.symm) (hsquares.trans hrun.symm)
    rw [List.foldlM_cons, hadd, Outcome.ok_bind]
    exact ih hrest (by simp [hsums, hrun]) (by simp [hsquares, hrun])

theorem length_foldl_zipWith {add : Binary64 → Binary64 → Binary64} {runs : List (List Binary64)}
    {buffer : List Binary64} {length : Nat} (hruns : ∀ run ∈ runs, run.length = length)
    (hbuffer : buffer.length = length) :
    (runs.foldl (List.zipWith add) buffer).length = length := by
  induction runs generalizing buffer with
  | nil => exact hbuffer
  | cons run runs ih =>
    obtain ⟨hrun, hrest⟩ := List.forall_mem_cons.mp hruns
    exact ih hrest (by simp [hbuffer, hrun])

/-- A place of a buffer has been given the numbers that the rows have there, in their order. -/
theorem getElem?_foldl_zipWith {add : Binary64 → Binary64 → Binary64}
    {runs : List (List Binary64)} {buffer : List Binary64} {length place : Nat}
    (hruns : ∀ run ∈ runs, run.length = length) (hplace : place < length) {start : Binary64}
    (hstart : buffer[place]? = some start) :
    (runs.foldl (List.zipWith add) buffer)[place]? =
      some ((across place runs).foldl add start) := by
  induction runs generalizing buffer start with
  | nil => exact hstart
  | cons run runs ih =>
    obtain ⟨hrun, hrest⟩ := List.forall_mem_cons.mp hruns
    obtain ⟨number, hnumber⟩ : ∃ number, run[place]? = some number :=
      ⟨_, List.getElem?_eq_getElem (hrun ▸ hplace)⟩
    have hacross : across place (run :: runs) = number :: across place runs := by
      simp [across, hnumber]
    rw [List.foldl_cons, hacross, List.foldl_cons]
    exact ih hrest (by simp [List.getElem?_zipWith, hstart, hnumber])

/-! ## Dividing -/

/-- The deviation that a sum and a sum of squares of so many numbers come to. -/
def deviationFrom (rows : Nat) (sum square : Binary64) : Binary64 :=
  let mean := sum / Binary64.ofInt rows
  ((square / Binary64.ofInt rows - mean * mean).max 0).sqrt

theorem foldlM_divideAt {rows : Nat} (hrows : 0 < rows)
    (sums squares before beforeSquares : List Binary64)
    (hbefore : beforeSquares.length = before.length) (hlength : squares.length = sums.length) :
    (List.range' before.length sums.length).foldlM (divideAt rows)
        ⟨before ++ sums, beforeSquares ++ squares⟩ =
      .ok ⟨before ++ sums.map (· / Binary64.ofInt rows),
        beforeSquares ++ List.zipWith (deviationFrom rows) sums squares⟩ := by
  induction sums generalizing squares before beforeSquares with
  | nil =>
    obtain rfl := List.length_eq_zero_iff.mp hlength
    rfl
  | cons sum sums ih =>
    obtain ⟨square, squares, rfl⟩ := List.exists_cons_of_length_eq_add_one hlength
    have hfetch : fetch (beforeSquares ++ square :: squares) before.length = .ok square :=
      hbefore ▸ fetch_append
    have hstore (other : Binary64) : store (beforeSquares ++ square :: squares) before.length
        other = .ok (beforeSquares ++ other :: squares) := hbefore ▸ store_append
    have hdivide : divideAt rows ⟨before ++ sum :: sums, beforeSquares ++ square :: squares⟩
        before.length = .ok ⟨before ++ (sum / Binary64.ofInt rows) :: sums,
          beforeSquares ++ deviationFrom rows sum square :: squares⟩ := by
      simp only [divideAt, fetch_append, store_append, share_of_pos hrows, hfetch, hstore,
        Outcome.ok_bind]
      rfl
    have hrest := ih squares (before ++ [sum / Binary64.ofInt rows])
      (beforeSquares ++ [deviationFrom rows sum square]) (by simp [hbefore])
      (by simpa using hlength)
    rw [List.length_append, List.length_singleton] at hrest
    rw [List.length_cons, List.range'_succ, List.foldlM_cons, hdivide, Outcome.ok_bind]
    simpa using hrest

/-! ## What is left in the buffers -/

variable {runs rows : List (List Binary64)} {length place : Nat}

theorem length_across (hruns : ∀ run ∈ runs, run.length = length) (hplace : place < length) :
    (across place runs).length = runs.length := by
  induction runs with
  | nil => rfl
  | cons run runs ih =>
    obtain ⟨hrun, hrest⟩ := List.forall_mem_cons.mp hruns
    have hnumber : run[place]? = some run[place] := List.getElem?_eq_getElem (hrun ▸ hplace)
    simpa [across, hnumber] using ih hrest

/-- One number for each place is found by what it is at each place. -/
theorem eq_alongside {values : List Binary64} {measure : List Binary64 → Binary64}
    (hfirst : (runs.head?.getD []).length = values.length)
    (hvalues : ∀ place < values.length, values[place]? = some (measure (across place runs))) :
    values = alongside runs measure := by
  refine List.ext_getElem? fun place => ?_
  rw [alongside, hfirst, List.getElem?_map]
  by_cases hplace : place < values.length
  · rw [hvalues place hplace, List.getElem?_range hplace, Option.map_some]
  · rw [List.getElem?_eq_none (by omega), List.getElem?_eq_none (by simp; omega), Option.map_none]

/-- **Accumulating rows of one length does not halt, and gives the means and the deviations.** -/
theorem moments_eq (hruns : ∀ run ∈ runs, run.length = (runs.head?.getD []).length) :
    moments runs = .ok ⟨alongside runs meanOf, alongside runs deviationOf⟩ := by
  by_cases hempty : runs = []
  · subst hempty
    rfl
  have hrows : 0 < runs.length := List.length_pos_iff.mpr hempty
  generalize hfirst : (runs.head?.getD []).length = length at hruns
  let empty : List Binary64 := List.replicate length 0
  have hlength : empty.length = length := List.length_replicate
  -- One buffer is left with the sums of the places, the other with those of the squares.
  let sums := runs.foldl (List.zipWith (· + ·)) empty
  let squares := runs.foldl (List.zipWith addSquare) empty
  have hsums : sums.length = length := length_foldl_zipWith hruns hlength
  have hsquares : squares.length = length := length_foldl_zipWith hruns hlength
  have hdivided := foldlM_divideAt hrows sums squares [] [] rfl (hsquares.trans hsums.symm)
  rw [hsums] at hdivided
  have hmoments : moments runs = .ok ⟨sums.map (· / Binary64.ofInt runs.length),
      List.zipWith (deviationFrom runs.length) sums squares⟩ := by
    rw [moments, hfirst, foldlM_addFrom hruns hlength hlength, Outcome.ok_bind,
      List.range_eq_range']
    exact hdivided
  have hstart (place : Nat) (hplace : place < length) : empty[place]? = some 0 := by
    simp [empty, hplace]
  have hsum (place : Nat) (hplace : place < length) :
      sums[place]? = some (Binary64.sum (across place runs)) :=
    getElem?_foldl_zipWith hruns hplace (hstart place hplace)
  have hsquare (place : Nat) (hplace : place < length) : squares[place]? =
      some (Binary64.sum ((across place runs).map fun number => number * number)) := by
    rw [Binary64.sum, List.foldl_map]
    exact getElem?_foldl_zipWith hruns hplace (hstart place hplace)
  have hmeans : sums.map (· / Binary64.ofInt runs.length) = alongside runs meanOf := by
    refine eq_alongside (by simp [hfirst, hsums]) fun place hplace => ?_
    have hplace : place < length := by simpa [hsums] using hplace
    rw [List.getElem?_map, hsum place hplace, meanOf, length_across hruns hplace, Option.map_some]
  have hdeviations : List.zipWith (deviationFrom runs.length) sums squares =
      alongside runs deviationOf := by
    refine eq_alongside (by simp [hfirst, hsums, hsquares]) fun place hplace => ?_
    have hplace : place < length := by simpa [hsums, hsquares] using hplace
    rw [List.getElem?_zipWith, hsum place hplace, hsquare place hplace, deviationOf, meanOf,
      length_across hruns hplace]
    rfl
  rw [hmoments, hmeans, hdeviations]

/-! ## The rows of a column -/

/-- The numbers of a cell: one for each item of a series, or the only one. -/
inductive Spells : Value → List Binary64 → Prop
  | series {items : List Value} {numbers : List Binary64}
      (hitems : List.Forall₂ (fun item number => item.toBinary64? = some number) items numbers) :
      Spells (.list items) numbers
  | number {cell : Value} {number : Binary64} (hcell : cell.toBinary64? = some number) :
      Spells cell [number]

/-- A value among the cells, or among the items of a series, that is not a number. -/
inductive Foreign (cells : List Value) : Value → Prop
  | cell {cell : Value} (hcell : cell ∈ cells) (hsingle : cell.toItems? = none)
      (hnumber : cell.toBinary64? = none) : Foreign cells cell
  | item {items : List Value} {item : Value} (hcell : .list items ∈ cells) (hitem : item ∈ items)
      (hnumber : item.toBinary64? = none) : Foreign cells item

variable {name : String} {cells : List Value} {cell : Value} {error : Error}

theorem number_eq_ok_iff {value : Value} {found : Binary64} :
    number name value = .ok found ↔ value.toBinary64? = some found := by
  unfold number
  cases value.toBinary64? <;> simp

theorem number_eq_error {value : Value} (h : number name value = .error error) :
    value.toBinary64? = none ∧ error = .notNumeric name value.typeName := by
  unfold number at h
  cases hvalue : value.toBinary64? with
  | none => simpa [hvalue, eq_comm] using h
  | some found => simp [hvalue] at h

theorem cellSeries_of_single (hsingle : cell.toItems? = none) :
    cellSeries name cell = (number name cell).map fun found => [found] := by
  cases cell with
  | list items => cases hsingle
  | _ =>
    rw [cellSeries]
    · cases number name _ <;> rfl
    · exact fun _ h => nomatch h

/-- A cell has a series exactly if it spells one. -/
theorem cellSeries_eq_ok_iff {row : List Binary64} :
    cellSeries name cell = .ok row ↔ Spells cell row := by
  constructor
  · intro hrow
    cases hitems : cell.toItems? with
    | some items =>
      obtain rfl : cell = .list items := by
        cases cell <;> cases hitems
        rfl
      exact .series ((Outcome.forall₂_of_mapM hrow).imp fun _ _ h => number_eq_ok_iff.mp h)
    | none =>
      rw [cellSeries_of_single hitems] at hrow
      cases hnumber : number name cell with
      | error error => simp [hnumber, Except.map] at hrow
      | ok found =>
        obtain rfl : [found] = row := by simpa [hnumber, Except.map] using hrow
        exact .number (number_eq_ok_iff.mp hnumber)
  · rintro (hitems | hcell)
    · exact Outcome.mapM_of_forall₂ (hitems.imp fun _ _ h => number_eq_ok_iff.mpr h)
    · have hsingle : cell.toItems? = none := by
        cases cell <;> cases hcell <;> rfl
      rw [cellSeries_of_single hsingle, number_eq_ok_iff.mpr hcell]
      rfl

/-- A cell without a series has a value that is not a number. -/
theorem foreign_of_cellSeries (hcell : cell ∈ cells) (h : cellSeries name cell = .error error) :
    ∃ value, Foreign cells value ∧ error = .notNumeric name value.typeName := by
  cases hitems : cell.toItems? with
  | some items =>
    obtain rfl : cell = .list items := by
      cases cell <;> cases hitems
      rfl
    obtain ⟨item, hitem, hfault⟩ := Outcome.exists_error_of_mapM h
    obtain ⟨hnumber, herror⟩ := number_eq_error hfault
    exact ⟨item, .item hcell hitem hnumber, herror⟩
  | none =>
    rw [cellSeries_of_single hitems] at h
    cases hnumber : number name cell with
    | ok found => simp [hnumber, Except.map] at h
    | error other =>
      obtain rfl : other = error := by simpa [hnumber, Except.map] using h
      obtain ⟨hforeign, herror⟩ := number_eq_error hnumber
      exact ⟨cell, .cell hcell hitems hforeign, herror⟩

/-- Where every cell spells a row there is nothing but numbers. -/
theorem not_foreign_of_spells (h : List.Forall₂ Spells cells rows) (value : Value) :
    ¬ Foreign cells value := by
  have hspells : ∀ cell ∈ cells, ∃ row, Spells cell row := by
    intro cell hcell
    obtain ⟨place, hplace⟩ := List.mem_iff_getElem?.mp hcell
    obtain ⟨row, -, hrow⟩ := exists_getElem?_of_forall₂ h hplace
    exact ⟨row, hrow⟩
  rintro (⟨hcell, hsingle, hnumber⟩ | ⟨hcell, hitem, hnumber⟩)
  · obtain ⟨row, hrow⟩ := hspells _ hcell
    cases hrow with
    | series hitems => cases hsingle
    | number hfound => simp [hnumber] at hfound
  · obtain ⟨row, hrow⟩ := hspells _ hcell
    cases hrow with
    | series hitems =>
      obtain ⟨place, hplace⟩ := List.mem_iff_getElem?.mp hitem
      obtain ⟨found, -, hfound⟩ := exists_getElem?_of_forall₂ hitems hplace
      simp [hnumber] at hfound
    | number hfound => cases hfound

/-! ## The shortest row -/

theorem shortest_le {row : List Binary64} (hrow : row ∈ rows) : shortest rows ≤ row.length := by
  obtain ⟨least, hleast⟩ := Option.isSome_iff_exists.mp
    (List.isSome_min?_of_mem (List.mem_map_of_mem (f := List.length) hrow))
  rw [shortest, hleast, Option.getD_some]
  exact (List.min?_eq_some_iff.mp hleast).2 _ (List.mem_map_of_mem hrow)

theorem exists_shortest_row (hrows : rows ≠ []) : ∃ row ∈ rows, row.length = shortest rows := by
  obtain ⟨row, hrow⟩ := List.exists_mem_of_ne_nil rows hrows
  obtain ⟨least, hleast⟩ := Option.isSome_iff_exists.mp
    (List.isSome_min?_of_mem (List.mem_map_of_mem (f := List.length) hrow))
  obtain ⟨found, hfound, hlength⟩ := List.mem_map.mp (List.min?_eq_some_iff.mp hleast).1
  exact ⟨found, hfound, by rw [shortest, hleast, Option.getD_some, hlength]⟩

/-- Rows that have been cut are as long as the shortest of them was. -/
theorem length_of_mem_cut {run : List Binary64}
    (hrun : run ∈ rows.map (List.take (shortest rows))) : run.length = shortest rows := by
  obtain ⟨row, hrow, rfl⟩ := List.mem_map.mp hrun
  have := shortest_le hrow
  simp
  omega

theorem length_head_cut :
    ((rows.map (List.take (shortest rows))).head?.getD []).length = shortest rows := by
  cases rows with
  | nil => rfl
  | cons row rows => exact length_of_mem_cut (List.mem_cons_self ..)

/-- The series of a column are the rows that its cells spell, cut to the shortest. -/
theorem series_eq_ok_iff :
    series name cells = .ok runs ↔
      ∃ rows, List.Forall₂ Spells cells rows ∧ runs = rows.map (List.take (shortest rows)) := by
  unfold series
  rw [Outcome.bind_eq_ok]
  constructor
  · rintro ⟨rows, hrows, hruns⟩
    cases hruns
    exact ⟨rows, (Outcome.forall₂_of_mapM hrows).imp fun _ _ h => cellSeries_eq_ok_iff.mp h, rfl⟩
  · rintro ⟨rows, hrows, rfl⟩
    refine ⟨rows, ?_, rfl⟩
    exact Outcome.mapM_of_forall₂ (hrows.imp fun _ _ h => cellSeries_eq_ok_iff.mpr h)

theorem foreign_of_series (h : series name cells = .error error) :
    ∃ value, Foreign cells value ∧ error = .notNumeric name value.typeName := by
  unfold series at h
  cases hrows : cells.mapM (cellSeries name) with
  | ok rows => rw [hrows] at h; cases h
  | error other =>
    rw [hrows] at h
    cases h
    obtain ⟨cell, hcell, hfault⟩ := Outcome.exists_error_of_mapM hrows
    exact foreign_of_cellSeries hcell hfault

/-- Series of a column are as long as the first of them. -/
theorem uniform_series (h : series name cells = .ok runs) :
    ∀ run ∈ runs, run.length = (runs.head?.getD []).length := by
  obtain ⟨rows, -, rfl⟩ := series_eq_ok_iff.mp h
  intro run hrun
  rw [length_head_cut, length_of_mem_cut hrun]

/-- A place that all rows have, has one number of each row. -/
theorem forall₂_across (hplace : place < shortest rows) :
    List.Forall₂ (fun row number => row[place]? = some number) rows
      (across place (rows.map (List.take (shortest rows)))) := by
  have hall : ∀ row ∈ rows, place < row.length := fun row hrow =>
    Nat.lt_of_lt_of_le hplace (shortest_le hrow)
  generalize shortest rows = cut at hplace
  induction rows with
  | nil => exact .nil
  | cons row rows ih =>
    obtain ⟨hrow, hrest⟩ := List.forall_mem_cons.mp hall
    have hnumber : row[place]? = some row[place] := List.getElem?_eq_getElem hrow
    have hacross : across place ((row :: rows).map (List.take cut)) =
        row[place] :: across place (rows.map (List.take cut)) := by
      simp [across, hplace, hnumber]
    rw [hacross]
    exact .cons hnumber (ih hrest)

/-! ## Summaries -/

/-- What a column is summarised to. -/
inductive Moment where
  /-- The mean. -/
  | mean
  /-- The deviation. -/
  | deviation

/-- What is computed from the numbers at one place. -/
def Moment.of : Moment → List Binary64 → Binary64
  | mean => meanOf
  | deviation => deviationOf

/-- The buffer in which it is left. -/
def Moment.left : Moment → Buffers → List Binary64
  | mean => Buffers.sums
  | deviation => Buffers.squares

/-- What is computed from the numbers of the cells: nothing for a column without cells, one number
if all cells are numbers, and a series otherwise.  The series is as long as the shortest row, and
each of its numbers comes from those that the rows have at its place. -/
inductive Reduced (measure : List Binary64 → Binary64) (cells : List Value) : Value → Prop
  | empty (hcells : cells = []) : Reduced measure cells .null
  | number {numbers : List Binary64} (hcells : cells ≠ [])
      (hnumbers : List.Forall₂ (fun cell number => cell.toBinary64? = some number) cells numbers) :
      Reduced measure cells (.float (measure numbers))
  | series {items : List Value} {rows : List (List Binary64)} {values : List Binary64}
      (hseries : .list items ∈ cells) (hrows : List.Forall₂ Spells cells rows)
      (hshortest : ∃ row ∈ rows, row.length = values.length)
      (hleast : ∀ row ∈ rows, values.length ≤ row.length)
      (hvalues : ∀ place < values.length, ∃ numbers,
        List.Forall₂ (fun row number => row[place]? = some number) rows numbers ∧
          values[place]? = some (measure numbers)) :
      Reduced measure cells (.list (values.map .float))

theorem hasSeries_iff : hasSeries cells = true ↔ ∃ items, .list items ∈ cells := by
  rw [hasSeries, List.any_eq_true]
  constructor
  · rintro ⟨cell, hcell, hitems⟩
    cases cell with
    | list items => exact ⟨items, hcell⟩
    | _ => cases hitems
  · rintro ⟨items, hcell⟩
    exact ⟨_, hcell, rfl⟩

/-- Cells that are no series spell the number that they are. -/
theorem forall₂_of_spells {numbers : List Binary64} (hseries : ¬ ∃ items, .list items ∈ cells)
    (hrows : List.Forall₂ Spells cells rows)
    (hnumbers : List.Forall₂ (fun row number => row[0]? = some number) rows numbers) :
    List.Forall₂ (fun cell number => cell.toBinary64? = some number) cells numbers := by
  induction hrows generalizing numbers with
  | nil =>
    cases hnumbers
    exact .nil
  | @cons cell row cells rows hcell _ ih =>
    cases hnumbers with
    | cons hnumber hrest =>
      have hcells := ih (fun ⟨items, hmem⟩ => hseries ⟨items, List.mem_cons_of_mem _ hmem⟩) hrest
      cases hcell with
      | @series items _ _ => exact absurd ⟨items, List.mem_cons_self⟩ hseries
      | number hcell =>
        obtain rfl := Option.some_inj.mp hnumber
        exact .cons hcell hcells

/-- **The summary of the rows of a column is computed from the numbers at each place.** -/
theorem reduced_toValue (measure : List Binary64 → Binary64)
    (hrows : List.Forall₂ Spells cells rows) :
    Reduced measure cells
      (toValue cells (alongside (rows.map (List.take (shortest rows))) measure)) := by
  generalize hvalues : alongside (rows.map (List.take (shortest rows))) measure = values
  have hlength : values.length = shortest rows := by
    rw [← hvalues, alongside, length_head_cut, List.length_map, List.length_range]
  have hvalue : ∀ place < values.length, values[place]? =
      some (measure (across place (rows.map (List.take (shortest rows))))) := by
    intro place hplace
    rw [hlength] at hplace
    rw [← hvalues, alongside, length_head_cut, List.getElem?_map, List.getElem?_range hplace,
      Option.map_some]
  by_cases hempty : cells = []
  · subst hempty
    cases hrows
    rw [← hvalues]
    exact .empty rfl
  have hsome : rows ≠ [] := by
    rintro rfl
    cases hrows
    exact hempty rfl
  obtain ⟨short, hshort, hshortest⟩ := exists_shortest_row hsome
  unfold toValue
  by_cases hseries : ∃ items, .list items ∈ cells
  · rw [if_pos (hasSeries_iff.mpr hseries)]
    obtain ⟨items, hitems⟩ := hseries
    refine .series hitems hrows ⟨short, hshort, hshortest.trans hlength.symm⟩ ?_ ?_
    · intro row hrow
      rw [hlength]
      exact shortest_le hrow
    · intro place hplace
      exact ⟨_, forall₂_across (hlength ▸ hplace), hvalue place hplace⟩
  · rw [if_neg (mt hasSeries_iff.mp hseries)]
    -- Every row has one number, and so has the summary.
    have hpos : 0 < shortest rows := by
      rw [← hshortest]
      obtain ⟨place, hplace⟩ := List.mem_iff_getElem?.mp hshort
      obtain ⟨cell, hcell, hspells⟩ := exists_getElem?_of_forall₂ hrows.flip hplace
      cases hspells with
      | series _ => exact absurd ⟨_, List.mem_of_getElem? hcell⟩ hseries
      | number _ => exact Nat.one_pos
    have hnumbers := forall₂_of_spells hseries hrows (forall₂_across hpos)
    have hhead : values.head? =
        some (measure (across 0 (rows.map (List.take (shortest rows))))) := by
      rw [List.head?_eq_getElem?]
      exact hvalue 0 (by omega)
    rw [hhead]
    exact .number hempty hnumbers

/-- A column of numbers and of series of numbers is reduced to the given moments, as accumulating
leaves them in buffers.  If something else is in the column there is an error about it. -/
structure Summarises (name : String) (moments : List Moment) (cells : List Value)
    (outcome : Except Error (List Value)) : Prop where
  accumulates (runs : List (List Binary64)) (hruns : series name cells = .ok runs) :
    ∃ buffers, Summary.moments runs = .ok buffers ∧
      outcome = .ok (moments.map fun moment => toValue cells (moment.left buffers))
  reduces (hnumbers : ∀ value, ¬ Foreign cells value) :
    ∃ values, outcome = .ok values ∧
      List.Forall₂ (fun moment value => Reduced moment.of cells value) moments values
  fails_iff : (∃ error, outcome = .error error) ↔ ∃ value, Foreign cells value
  fails (error : Error) (herror : outcome = .error error) :
    error.kind = .mapping ∧ ∃ value, Foreign cells value ∧ error = .notNumeric name value.typeName

theorem moments_of_series (hruns : series name cells = .ok runs) :
    ∃ buffers, moments runs = .ok buffers ∧
      ∀ moment : Moment, moment.left buffers = alongside runs moment.of := by
  refine ⟨_, moments_eq (uniform_series hruns), fun moment => ?_⟩
  cases moment <;> rfl

/-- What is made of the series of a column, one after the other, summarises the column. -/
theorem summarises_of_series {moments : List Moment} {outcome : Except Error (List Value)}
    (h : outcome = (series name cells).map fun runs =>
      moments.map fun moment => toValue cells (alongside runs moment.of)) :
    Summarises name moments cells outcome := by
  subst h
  have hfails (error : Error) (herror : ((series name cells).map fun runs =>
      moments.map fun moment => toValue cells (alongside runs moment.of)) = .error error) :
      ∃ value, Foreign cells value ∧ error = .notNumeric name value.typeName := by
    cases hseries : series name cells with
    | ok runs => simp [hseries, Except.map] at herror
    | error other =>
      obtain rfl : other = error := by simpa [hseries, Except.map] using herror
      exact foreign_of_series hseries
  constructor
  case accumulates =>
    intro runs hruns
    obtain ⟨buffers, hbuffers, hleft⟩ := moments_of_series hruns
    refine ⟨buffers, hbuffers, ?_⟩
    simp only [hruns, Except.map, hleft]
  case reduces =>
    intro hnumbers
    cases hseries : series name cells with
    | error error =>
      obtain ⟨value, hforeign, -⟩ := foreign_of_series hseries
      exact absurd hforeign (hnumbers value)
    | ok runs =>
      obtain ⟨rows, hrows, rfl⟩ := series_eq_ok_iff.mp hseries
      refine ⟨_, rfl, List.forall₂_map_right_iff.mpr (List.forall₂_same.mpr fun moment _ => ?_)⟩
      exact reduced_toValue moment.of hrows
  case fails_iff =>
    constructor
    · rintro ⟨error, herror⟩
      obtain ⟨value, hforeign, -⟩ := hfails error herror
      exact ⟨value, hforeign⟩
    · rintro ⟨value, hforeign⟩
      cases hseries : series name cells with
      | error error => exact ⟨error, rfl⟩
      | ok runs =>
        obtain ⟨rows, hrows, -⟩ := series_eq_ok_iff.mp hseries
        exact absurd hforeign (not_foreign_of_spells hrows value)
  case fails =>
    intro error herror
    obtain ⟨value, hforeign, rfl⟩ := hfails error herror
    exact ⟨rfl, value, hforeign, rfl⟩

theorem summarises_mean (key : String) (arguments : List Value) :
    Summarises "mean" [.mean] (column arguments) ((mean key).call arguments) := by
  refine summarises_of_series ?_
  generalize hcells : column arguments = cells
  cases cells with
  | nil =>
    simp [mean, hcells]
    rfl
  | cons cell cells =>
    simp [mean, hcells]
    rfl

theorem summarises_meanAndDeviation (key : String) (arguments : List Value) :
    Summarises "avg_std" [.mean, .deviation] (column arguments)
      ((meanAndDeviation key).call arguments) :=
  summarises_of_series rfl

/-- **The mean and the deviation of a column never leave their buffers nor divide by zero rows,
are as long as the shortest row, and are those of the numbers at each place.**  They fail exactly
for a column in which something is not a number. -/
theorem mean_deviation_spec (key : String) (arguments : List Value) :
    Summarises "mean" [.mean] (column arguments) ((mean key).call arguments) ∧
      Summarises "avg_std" [.mean, .deviation] (column arguments)
        ((meanAndDeviation key).call arguments) :=
  ⟨summarises_mean key arguments, summarises_meanAndDeviation key arguments⟩

/-- Two runs of three and of two numbers have a mean and a deviation at two places. -/
theorem mean_deviation_of_two_runs :
    let cells : List Value := [.list [.int 1, .int 5, .int 9], .list [.float 3, .int 7]]
    (Summarises "mean" [.mean] cells ((mean "loss").call [.list cells]) ∧
      Summarises "avg_std" [.mean, .deviation] cells
        ((meanAndDeviation "loss").call [.list cells])) ∧
      (mean "loss").call [.list cells] = .ok [.list [.float 2, .float 6]] ∧
      (meanAndDeviation "loss").call [.list cells] =
        .ok [.list [.float 2, .float 6], .list [.float 1, .float 1]] := by
  intro cells
  have hcolumn : column [.list cells] = cells := rfl
  have hseries (name : String) : series name cells = .ok [[1, 5], [3, 7]] := rfl
  have hmeans : alongside [[1, 5], [3, 7]] meanOf = [2, 6] := by decide +kernel
  have hdeviations : alongside [[1, 5], [3, 7]] deviationOf = [1, 1] := by decide +kernel
  refine ⟨mean_deviation_spec "loss" [.list cells], ?_, ?_⟩
  · simp only [mean, hcolumn, hseries, Outcome.ok_bind, hmeans]
    rfl
  · simp only [meanAndDeviation, hcolumn, hseries, Outcome.ok_bind, hmeans, hdeviations]
    rfl

/-- The mean and the deviation of the cells of the column that they are called with. -/
theorem mean_deviation_cells (key : String) (cells : List Value) :
    Summarises "mean" [.mean] cells ((mean key).call [.list cells]) ∧
      Summarises "avg_std" [.mean, .deviation] cells
        ((meanAndDeviation key).call [.list cells]) :=
  ⟨summarises_mean key [.list cells], summarises_meanAndDeviation key [.list cells]⟩

end Summary

end Logbook
