import Logbook.Frame.Basic

/-!
# Groupings

A `Grouping` splits rows by their values at some keys, and each part may be split
again by other keys.  Groups stand in the order in which their tuples first appear.
What is done to a grouping is done to the frame of each group on its own.
-/

namespace Logbook

/-- A frame, split any number of times. -/
inductive Grouping where
  /-- A frame that is not split. -/
  | whole (frame : Frame)
  /-- A split by the values at some keys, with the tuple of values of each part. -/
  | split (keys : List String) (groups : List (List Value × Grouping))

/-- Pairs of a tuple and what belongs to it, put together by tuples, in the order in
which the tuples first appear. -/
def groupByTuple {α : Type} (pairs : List (List Value × α)) : List (List Value × List α) :=
  let tuples := (pairs.map Prod.fst).foldl
    (fun seen tuple => if seen.any (Value.sameItems · tuple) then seen else seen ++ [tuple]) []
  tuples.map fun tuple =>
    (tuple, (pairs.filter fun pair => Value.sameItems tuple pair.1).map Prod.snd)

namespace Row

/-- The value of a row at a key that rows are grouped by. -/
def groupingValue (row : Row) (position : Nat) (key : String) : Reading Value := do
  match ← row.get? key with
  | some value => return value
  | none => throw (.ungroupable position row.id key)

/-- The values of a row at the keys that rows are grouped by, and a copy of the row,
made when it has been read. -/
def grouped (keys : List String) (row : Row) (position : Nat) : Reading (List Value × Row) := do
  let tuple ← keys.mapM (row.groupingValue position)
  row.release
  return (tuple, ← row.copy)

end Row

namespace Frame

/-- Splits the rows by their values at keys, which every row has to have. -/
def groupBy (frame : Frame) (keys : List String) : Reading Grouping := do
  frame.checkKeys keys
  let pairs ← frame.rows.zipIdx.mapM fun (row, position) => row.grouped keys position
  return .split keys ((groupByTuple pairs).map fun (tuple, rows) => (tuple, .whole ⟨rows⟩))

end Frame

namespace Grouping

instance : Inhabited Grouping := ⟨.whole ⟨[]⟩⟩

/-- The keys of the outermost split. -/
def keys : Grouping → List String
  | whole _ => []
  | split keys _ => keys

/-- The groups of the outermost split. -/
def groups : Grouping → List (List Value × Grouping)
  | whole _ => []
  | split _ groups => groups

/-- The tuples of the outermost split. -/
def tuples (grouping : Grouping) : List (List Value) := grouping.groups.map Prod.fst

/-- Whether there are no rows in a frame, or no groups in a split. -/
def isEmpty : Grouping → Bool
  | whole frame => frame.isEmpty
  | split _ groups => groups.isEmpty

mutual

/-- Replaces the frame of each group. -/
def mapFrames (change : Frame → Reading Grouping) : Grouping → Reading Grouping
  | whole frame => change frame
  | split keys groups => do return split keys (← mapGroups change groups)

/-- Replaces the frames of some groups. -/
def mapGroups (change : Frame → Reading Grouping) :
    List (List Value × Grouping) → Reading (List (List Value × Grouping))
  | [] => return []
  | (tuple, group) :: groups => do
      let group ← mapFrames change group
      let groups ← mapGroups change groups
      return (tuple, group) :: groups

end

/-- Replaces the frame of each group by another frame. -/
def mapWhole (change : Frame → Reading Frame) (grouping : Grouping) : Reading Grouping :=
  grouping.mapFrames fun frame => return whole (← change frame)

/-- A grouping with copies of the rows. -/
def copy (grouping : Grouping) : Reading Grouping := grouping.mapWhole Frame.copy

/-- Splits every group by keys. -/
def groupBy (grouping : Grouping) (keys : List String) : Reading Grouping :=
  grouping.mapFrames fun frame => frame.groupBy keys

/-- Splits by the keys of each level, the outermost first. -/
def groupByLevels (grouping : Grouping) : List (List String) → Reading Grouping
  | [] => return grouping
  | keys :: levels => do (← grouping.groupBy keys).groupByLevels levels

/-- Sorts every group. -/
def sort (grouping : Grouping) (keys : List String) (ascending : Bool) : Reading Grouping :=
  grouping.mapWhole fun frame => frame.sort keys ascending

/-- Applies mappings to every group. -/
def apply (grouping : Grouping) (mappings : List Mapping) (mode : Mode) : Reading Grouping :=
  grouping.mapWhole fun frame => frame.apply mappings mode

/-- Applies mappings to each cell. -/
def mapCells (grouping : Grouping) (mappings : List Mapping) : Reading Grouping :=
  grouping.apply mappings .pointwise

/-- Reduces every group to a single row. -/
def aggregate (grouping : Grouping) (mappings : List Mapping) : Reading Grouping :=
  grouping.mapWhole fun frame => frame.aggregate mappings

/-- Replaces the columns of every group by columns with as many rows. -/
def transform (grouping : Grouping) (mappings : List Mapping) : Reading Grouping :=
  grouping.mapWhole fun frame => frame.transform mappings

mutual

/-- The rows of all groups, with the values of each group's tuple written into its
rows.  Inner tuples are written before outer ones. -/
def rows : Grouping → List Row
  | whole frame => frame.rows
  | split keys groups => rowsOfGroups keys groups

/-- The rows of some groups of a split by the given keys. -/
def rowsOfGroups (keys : List String) : List (List Value × Grouping) → List Row
  | [] => []
  | (tuple, group) :: groups =>
      (group.rows.map fun row => row.update (keys.zip tuple)) ++ rowsOfGroups keys groups

end

/-- A frame with the rows of all groups. -/
def ungroup (grouping : Grouping) : Reading Frame := do
  return ⟨(← grouping.copy).rows⟩

mutual

/-- Filters every group and drops groups that are left without rows. -/
def filter (mapping : Mapping) : Grouping → Reading Grouping
  | whole frame => do return whole (← frame.filter mapping)
  | split keys groups => do return split keys (← filterGroups mapping groups)

/-- Filters some groups. -/
def filterGroups (mapping : Mapping) :
    List (List Value × Grouping) → Reading (List (List Value × Grouping))
  | [] => return []
  | (tuple, group) :: groups => do
      let group ← filter mapping group
      let groups ← filterGroups mapping groups
      return if group.isEmpty then groups else (tuple, group) :: groups

end

mutual

/-- The keys of each level, the outermost first, as the first group has them. -/
def levels : Grouping → List (List String)
  | whole _ => []
  | split keys groups => keys :: levelsOfGroups groups

/-- The keys of each level in the first of some groups. -/
def levelsOfGroups : List (List Value × Grouping) → List (List String)
  | [] => []
  | (_, group) :: _ => group.levels

end

/-- Filters all rows by groups of their values at other keys, and splits what is left
as before. -/
def filterBy (grouping : Grouping) (mapping : Mapping) (keys : List String) : Reading Grouping := do
  let regrouped ← (← grouping.ungroup).groupBy keys
  let kept ← regrouped.filter mapping
  (whole ⟨kept.rows⟩).groupByLevels grouping.levels

/-- The groups with one of the given tuples. -/
def select (grouping : Grouping) (tuples : List (List Value)) : Reading Grouping :=
  match grouping with
  | whole frame => (whole frame).copy
  | split keys groups =>
      (split keys (groups.filter fun group =>
        tuples.any fun tuple => Value.sameItems tuple group.1)).copy

/-- The group with the given tuple. -/
def get? (grouping : Grouping) (tuple : List Value) : Option Grouping :=
  (grouping.groups.find? fun group => Value.sameItems group.1 tuple).map Prod.snd

/-- A table with one more size.  A tuple that is there already gets the new size. -/
def setSize (tuple : List Value) (size : Nat) :
    List (List Value × Nat) → List (List Value × Nat)
  | [] => [(tuple, size)]
  | (other, former) :: table =>
      if Value.sameItems other tuple then (other, size) :: table
      else (other, former) :: setSize tuple size table

mutual

/-- The number of rows of a frame, or the sum of the table of sizes of a split. -/
def size : Grouping → Nat
  | whole frame => frame.size
  | split _ groups => (sizesOfGroups [] groups).foldl (fun total entry => total + entry.2) 0

/-- A table with the sizes of some more groups. -/
def sizesOfGroups (table : List (List Value × Nat)) :
    List (List Value × Grouping) → List (List Value × Nat)
  | [] => table
  | (tuple, group) :: groups => sizesOfGroups (setSize tuple group.size table) groups

end

/-- The table of the sizes of the groups of the outermost split. -/
def sizes (grouping : Grouping) : List (List Value × Nat) := sizesOfGroups [] grouping.groups

mutual

/-- Whether two groupings have the same keys, tuples and rows. -/
def same (shelf : Shelf) : Grouping → Grouping → Bool
  | whole left, whole right => left.same shelf right
  | split leftKeys left, split rightKeys right =>
      leftKeys == rightKeys && sameGroups shelf left right
  | _, _ => false

/-- Whether two lists of groups have the same tuples and rows. -/
def sameGroups (shelf : Shelf) :
    List (List Value × Grouping) → List (List Value × Grouping) → Bool
  | [], [] => true
  | (leftTuple, left) :: lefts, (rightTuple, right) :: rights =>
      Value.sameItems leftTuple rightTuple && same shelf left right && sameGroups shelf lefts rights
  | _, _ => false

end

/-- The keys of a split with the values of one tuple. -/
def describeTuple (keys : List String) (tuple : List Value) : String :=
  ", ".intercalate ((keys.zip tuple).map fun (key, value) => key ++ "=" ++ value.render)

mutual

/-- The groups, each indented below its tuple. -/
def renderGroups (shelf : Shelf) (indent : String) : Grouping → String
  | whole frame => frame.renderRows shelf indent
  | split keys groups => renderParts shelf indent keys groups

/-- Some groups of a split by the given keys. -/
def renderParts (shelf : Shelf) (indent : String) (keys : List String) :
    List (List Value × Grouping) → String
  | [] => ""
  | (tuple, group) :: groups =>
      indent ++ "(" ++ describeTuple keys tuple ++ ")\n" ++
        group.renderGroups shelf (indent ++ "    ") ++ renderParts shelf indent keys groups

end

/-- The text of a grouping. -/
def render (shelf : Shelf) (grouping : Grouping) : String :=
  grouping.renderGroups shelf "" ++ "[" ++ grouping.groups.length.repr ++ " groups]"

end Grouping

namespace Frame

/-- Filters the rows by groups of their values at keys; the rows that are left stand
group by group. -/
def filterByGroups (frame : Frame) (mapping : Mapping) (keys : List String) : Reading Frame := do
  let kept ← (← frame.groupBy keys).filter mapping
  return ⟨kept.rows⟩

end Frame

end Logbook
