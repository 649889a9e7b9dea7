import Logbook.Mapping.Basic
import Logbook.Row
import Logbook.Text.Columns

/-!
# Frames

A `Frame` is a list of rows, seen as a table whose columns are all keys of its rows.
Whatever is made from a frame has rows of its own, so computed fields that are read
there are not computed in the frame.  An operation that reads cells goes through the
rows in order and releases the loaders of each row when it has read the row.
-/

namespace Logbook

/-- A list of rows. -/
structure Frame where
  /-- The rows. -/
  rows : List Row

namespace Frame

/-- The number of rows. -/
def size (frame : Frame) : Nat := frame.rows.length

/-- Whether there are no rows. -/
def isEmpty (frame : Frame) : Bool := frame.rows.isEmpty

/-- The keys of all rows, each where it first appears. -/
def keys (frame : Frame) : List String := (frame.rows.flatMap Row.keys).eraseDups

/-- The columns that keys have to be among; a frame without rows admits any key. -/
def columns? (frame : Frame) : Option (List String) :=
  if frame.isEmpty then none else some frame.keys

/-- Checks that keys are columns. -/
def checkKeys (frame : Frame) (keys : List String) : Except Error Unit :=
  match frame.columns? with
  | none => .ok ()
  | some columns =>
      match keys.find? fun key => !columns.contains key with
      | some key => .error (.unknownColumn key columns)
      | none => .ok ()

/-- The lazy views of the rows. -/
def views (shelf : Shelf) (frame : Frame) : List Document := frame.rows.map (Row.view shelf)

/-- A frame with copies of the rows. -/
def copy (frame : Frame) : Reading Frame := return ⟨← Row.copies frame.rows⟩

/-- Whether two frames have the same rows. -/
def same (shelf : Shelf) (left right : Frame) : Bool :=
  left.size == right.size && (left.rows.zip right.rows).all fun rows => rows.1.same shelf rows.2

/-! ## Reading cells -/

/-- Goes through the rows with what reads each, and releases each when it has been
read. -/
def scan {α : Type} (frame : Frame) (read : Row → Reading α) : Reading (List α) :=
  frame.rows.mapM fun row => do
    let result ← read row
    row.release
    return result

/-- The cells of a column; rows without the key have null. -/
def column (frame : Frame) (key : String) : Reading (List Value) :=
  frame.scan fun row => row.cell key

/-- The keys of a row whose values differ from those of a reference row. -/
def differing (reference row : Document) : List String :=
  (row.entries.filter fun (key, value) =>
    match reference.get? key with
    | some other => !other.same value
    | none => true).map Prod.fst

/-- The columns with the given beginning in which some row differs from the first,
or has a value that the first has not.  Rows are compared in their lazy views. -/
def varying (shelf : Shelf) (beginning : String) (frame : Frame) : List String :=
  match frame.views shelf with
  | [] => []
  | reference :: rows =>
      ((rows.flatMap (differing reference)).filter (Key.startsWith beginning)).eraseDups

/-- The rows in the order of their tuples of values at the given keys; rows with
equal tuples stay in their order. -/
def sort (frame : Frame) (keys : List String) (ascending : Bool) : Reading Frame := do
  frame.checkKeys keys
  let tuples ← frame.scan fun row => keys.mapM row.cell
  let sorted := (tuples.zip frame.rows).mergeSort fun left right =>
    if ascending then Value.orderItems left.1 right.1 != .gt
    else Value.orderItems right.1 left.1 != .gt
  return ⟨← Row.copies (sorted.map Prod.snd)⟩

/-! ## Applying mappings -/

/-- The columns that plans read, each once. -/
def inputsOf (plans : List Plan) : List String :=
  (plans.flatMap fun plan => plan.mapping.inputs).eraseDups

/-- Columns from the cells of each row under the given keys. -/
def columnIn (keys : List String) (cells : List (List Value)) (key : String) : List Value :=
  cells.filterMap fun row => row[keys.idxOf key]?

/-- Reads the columns that plans need. -/
def gather (frame : Frame) (plans : List Plan) : Reading (String → List Value) := do
  let keys := inputsOf plans
  let cells ← frame.scan fun row => keys.mapM row.cell
  return columnIn keys cells

/-- The outputs of plans over whole columns, each column on its own. -/
def columnwise (frame : Frame) (plans : List Plan) : Reading (List (String × Value)) := do
  let column ← frame.gather plans
  let outputs ← liftM (plans.mapM (Plan.columnwise column))
  return outputs.flatten

/-- The outputs of plans over whole columns, all columns of a plan at once. -/
def generic (frame : Frame) (plans : List Plan) : Reading (List (String × Value)) := do
  let column ← frame.gather plans
  let outputs ← liftM (plans.mapM (Plan.generic column))
  return outputs.flatten

/-- A row of results for each row, of the same run. -/
def ofRowFields (frame : Frame) (fields : List (List (String × Value))) : Frame :=
  ⟨(frame.rows.zip fields).map fun (row, fields) => Row.ofFields row.id fields⟩

/-- A single row of results that is of no run. -/
def single (fields : List (String × Value)) : Frame := ⟨[Row.ofFields none fields]⟩

/-- Applies plans to each cell of their input columns. -/
def pointwise (frame : Frame) (plans : List Plan) : Reading Frame := do
  let fields ← frame.scan fun row => do
    let parts ← plans.mapM fun plan =>
      (plan.mapping.inputs.zip plan.outputs).mapM fun (input, output) => do
        plan.pointwise (← row.cell input) output
    return parts.flatten.flatten
  return frame.ofRowFields fields

/-- Applies plans to the input cells of each row. -/
def rowwise (frame : Frame) (plans : List Plan) : Reading Frame := do
  let fields ← frame.scan fun row => do
    let parts ← plans.mapM fun plan => do
      plan.rowwise (← plan.mapping.inputs.mapM row.cell)
    return parts.flatten
  return frame.ofRowFields fields

/-- The frame of outputs over whole columns: a row for each row, or a single one. -/
def ofOutputs (frame : Frame) (outputs : List (String × Value)) : Except Error Frame := do
  match ← Shape.ofOutputs frame.size outputs with
  | .rows fields => return frame.ofRowFields fields
  | .reduced fields => return single fields

/-- Applies mappings in a mode. -/
def apply (frame : Frame) (mappings : List Mapping) (mode : Mode) : Reading Frame := do
  let plans ← Plan.ofMappings mode frame.columns? mappings
  match mode with
  | .pointwise => frame.pointwise plans
  | .rowwise => frame.rowwise plans
  | .columnwise => do frame.ofOutputs (← frame.columnwise plans)
  | .generic => do frame.ofOutputs (← frame.generic plans)

/-- Applies mappings to each cell. -/
def mapCells (frame : Frame) (mappings : List Mapping) : Reading Frame :=
  frame.apply mappings .pointwise

/-- Reduces columns to a single row, also when there are no rows. -/
def aggregate (frame : Frame) (mappings : List Mapping) : Reading Frame := do
  let plans ← Plan.ofMappings .columnwise frame.columns? mappings
  return single (← frame.columnwise plans)

/-- Replaces columns by columns with as many rows. -/
def transform (frame : Frame) (mappings : List Mapping) : Reading Frame := do
  let plans ← Plan.ofMappings .columnwise frame.columns? mappings
  if frame.isEmpty then return ⟨[]⟩
  match ← Shape.ofOutputs frame.size (← frame.columnwise plans) with
  | .rows fields => return frame.ofRowFields fields
  | .reduced _ => throw (.reducing frame.size)

/-- The truth values that the output of a filter has for so many rows. -/
def mask? (rows : Nat) (outputs : List (String × Value)) : Option (List Bool) :=
  match outputs.head? with
  | some (_, .list items) =>
      if items.length = rows then some (items.map Value.isTruthy) else none
  | _ => none

/-- The rows for which a filter, applied to whole columns at once, gives a true
value. -/
def filter (frame : Frame) (mapping : Mapping) : Reading Frame := do
  let plans ← Plan.ofMappings .generic frame.columns? [mapping]
  if (plans.flatMap Plan.outputs).length ≠ 1 then throw (.filterOutputs mapping.name)
  if frame.isEmpty then return ⟨[]⟩
  match mask? frame.size (← frame.generic plans) with
  | none => throw (.filterSize mapping.name frame.size)
  | some mask =>
      let kept := (frame.rows.zip mask).filterMap fun (row, keep) => if keep then some row else none
      return ⟨← Row.copies kept⟩

/-! ## Text -/

/-- The texts of the cells of a row, with a dash for one that the row lacks. -/
def cellTexts (keys : List String) (view : Document) : List String :=
  keys.map fun key => ((view.get? key).map Value.render).getD "-"

/-- The lazy views of the rows as text in columns. -/
def renderRows (shelf : Shelf) (indent : String) (frame : Frame) : String :=
  Text.columns indent frame.keys ((frame.views shelf).map (cellTexts frame.keys))

/-- The text of a frame. -/
def render (shelf : Shelf) (frame : Frame) : String :=
  frame.renderRows shelf "" ++ "[" ++ frame.size.repr ++ " rows]"

end Frame

end Logbook
