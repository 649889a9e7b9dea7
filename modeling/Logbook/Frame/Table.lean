import Logbook.Frame.Basic

/-!
# Tables

A table has columns of one type each, which is inferred from the cells that are not
null.  Truth values, integers and numbers have types of their own; a column with
other values, with several kinds of values or with none is text.
-/

namespace Logbook

/-- The type of a column. -/
inductive ColumnType where
  /-- Truth values. -/
  | boolean
  /-- Integers of 64 bits. -/
  | int64
  /-- Doubles. -/
  | float64
  /-- Texts. -/
  | text
  deriving DecidableEq, Repr

namespace ColumnType

/-- The name of a type. -/
def name : ColumnType → String
  | boolean => "Boolean"
  | int64 => "Int64"
  | float64 => "Float64"
  | text => "Utf8"

/-- The type of a value that is not null. -/
def ofValue? : Value → Option ColumnType
  | .null => none
  | .bool _ => some boolean
  | .int _ => some int64
  | .float _ => some float64
  | _ => some text

/-- The type that admits the values of two types. -/
def join (left right : ColumnType) : ColumnType :=
  if left = right then left
  else match left, right with
    | int64, float64 => float64
    | float64, int64 => float64
    | _, _ => text

/-- The type of a column with the given values. -/
def infer (values : List Value) : ColumnType :=
  match values.filterMap ofValue? with
  | [] => text
  | first :: others => others.foldl join first

/-- The text of a value, none for null; lists, maps and artifacts are written as
JSON. -/
def textOf? : Value → Option String
  | .null => none
  | value@(.list _) | value@(.map _) | value@(.artifact _) => some value.toJson.compact
  | value => some value.render

/-- A value as a cell of a column, null if the column has none of its kind. -/
def cell (type : ColumnType) (value : Value) : Value :=
  match type with
  | boolean => (value.toBool?.map .bool).getD .null
  | int64 => (value.toInt64?.map .int).getD .null
  | float64 => (value.toBinary64?.map .float).getD .null
  | text => ((textOf? value).map .str).getD .null

end ColumnType

/-- A column of a table. -/
structure Column where
  /-- The key. -/
  name : String
  /-- The type of the cells. -/
  type : ColumnType
  /-- The cells; those that are missing are null. -/
  cells : List Value

/-- A table. -/
structure Table where
  /-- The number of rows, which a table has even without columns. -/
  size : Nat
  /-- The columns. -/
  columns : List Column

namespace Table

/-- The column of a key. -/
def column (documents : List Document) (key : String) : Column :=
  let values := documents.map fun document => document.get? key
  let type := ColumnType.infer (values.filterMap id)
  ⟨key, type, values.map fun value => (value.map type.cell).getD .null⟩

/-- The table of documents, with columns for the given keys. -/
def ofDocuments (keys : List String) (documents : List Document) : Table :=
  ⟨documents.length, keys.map (column documents)⟩

end Table

namespace Frame

/-- The table of the lazy views of the rows. -/
def viewTable (shelf : Shelf) (frame : Frame) : Table :=
  Table.ofDocuments frame.keys (frame.views shelf)

/-- The table of all fields of the rows. -/
def table (frame : Frame) : Reading Table := do
  return Table.ofDocuments frame.keys (← frame.scan Row.materialize)

end Frame

end Logbook
