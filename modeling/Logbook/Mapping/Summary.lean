import Logbook.Mapping.Basic

/-!
# Summaries of columns

Mappings that summarise the column of one key, to be applied columnwise.  The cells
of such a column are numbers, one for each run, or series of numbers, one series for
each run.  A number counts as a series of one.
-/

namespace Logbook

namespace Summary

/-- The cells of the column that a mapping is called with. -/
def column (arguments : List Value) : List Value :=
  (arguments.head?.bind Value.toItems?).getD []

/-- The number in a cell or in an item of a series. -/
def number (name : String) (value : Value) : Except Error Binary64 :=
  match value.toBinary64? with
  | some number => .ok number
  | none => .error (.notNumeric name value.typeName)

/-- The series of one cell. -/
def cellSeries (name : String) : Value → Except Error (List Binary64)
  | .list items => items.mapM (number name)
  | cell => do return [← number name cell]

/-- The least of several lengths, zero if there are none. -/
def shortest (runs : List (List Binary64)) : Nat :=
  (runs.map List.length).min?.getD 0

/-- The series of all cells, cut to the length of the shortest. -/
def series (name : String) (cells : List Value) : Except Error (List (List Binary64)) := do
  let runs ← cells.mapM (cellSeries name)
  return runs.map (List.take (shortest runs))

/-- Whether a column has a series among its cells. -/
def hasSeries (cells : List Value) : Bool :=
  cells.any fun cell => cell.toItems?.isSome

/-- The numbers at one position of several series. -/
def across (position : Nat) (runs : List (List Binary64)) : List Binary64 :=
  runs.filterMap fun run => run[position]?

/-- The mean of one number of each run. -/
def meanOf (numbers : List Binary64) : Binary64 :=
  Binary64.sum numbers / Binary64.ofInt numbers.length

/-- The standard deviation of the numbers of all runs around their mean, by the
mean of the squares; rounding cannot make it the root of a negative number. -/
def deviationOf (numbers : List Binary64) : Binary64 :=
  let mean := meanOf numbers
  let squares := Binary64.sum (numbers.map fun number => number * number)
  ((squares / Binary64.ofInt numbers.length - mean * mean).max 0).sqrt

/-- One number for each position that all series have. -/
def alongside (runs : List (List Binary64)) (measure : List Binary64 → Binary64) : List Binary64 :=
  (List.range (runs.head?.getD []).length).map fun position => measure (across position runs)

/-- A summary as a value: a series if the column has one, else its only number. -/
def toValue (cells : List Value) (numbers : List Binary64) : Value :=
  if hasSeries cells then .list (numbers.map .float)
  else (numbers.head?.map .float).getD .null

/-- The mean over runs, position by position for series. -/
def mean (key : String) : Mapping where
  name := "mean"
  inputs := [key]
  outputs := none
  call arguments := do
    let cells := column arguments
    if cells.isEmpty then return [.null]
    let runs ← series "mean" cells
    return [toValue cells (alongside runs meanOf)]

/-- The last item of a series; any other value stands for itself. -/
def lastOf : Value → Value
  | .list items => items.getLast?.getD .null
  | cell => cell

/-- The last item of each run's series, one for each row. -/
def last (key : String) : Mapping where
  name := "last"
  inputs := [key]
  outputs := none
  call arguments := .ok [.list ((column arguments).map lastOf)]

/-- The mean and the standard deviation over runs, position by position for series. -/
def meanAndDeviation (key : String) : Mapping where
  name := "avg_std"
  inputs := [key]
  outputs := some [key ++ "_avg", key ++ "_std"]
  call arguments := do
    let cells := column arguments
    let runs ← series "avg_std" cells
    return [toValue cells (alongside runs meanOf), toValue cells (alongside runs deviationOf)]

/-- A value that ends a run, as a number, and the row of the run. -/
structure Candidate where
  /-- The row. -/
  row : Nat
  /-- The value in which the run ends. -/
  value : Value
  /-- The number that the value holds. -/
  number : Binary64

/-- The runs that end in a number, in order. -/
def candidates (cells : List Value) : List Candidate :=
  cells.zipIdx.filterMap fun (cell, row) =>
    (lastOf cell).toBinary64?.bind fun number =>
      if number.isNaN then none else some ⟨row, lastOf cell, number⟩

/-- The better of the best so far and the next; only a strictly better one replaces
an earlier one. -/
def pick (better : Ordering) (best : Option Candidate) (next : Candidate) : Option Candidate :=
  match best with
  | none => some next
  | some best => if next.number.compare? best.number == some better then some next else some best

/-- The first best of several candidates. -/
def best? (better : Ordering) (candidates : List Candidate) : Option Candidate :=
  candidates.foldl (pick better) none

/-- The value in which the best run ends, and the row of that run. -/
def extreme (name : String) (better : Ordering) (key : String) : Mapping where
  name := name
  inputs := [key]
  outputs := some [name ++ "." ++ key, "arg_" ++ name ++ "." ++ key]
  call arguments :=
    match best? better (candidates (column arguments)) with
    | some best => .ok [best.value, .int (Int64.ofNat best.row)]
    | none => .ok [.null, .null]

/-- The run that ends lowest. -/
def minLast (key : String) : Mapping := extreme "min_last" .lt key

/-- The run that ends highest. -/
def maxLast (key : String) : Mapping := extreme "max_last" .gt key

end Summary

end Logbook
