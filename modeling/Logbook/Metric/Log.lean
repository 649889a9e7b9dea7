import Logbook.Disk
import Logbook.Error
import Logbook.Value.Json

/-!
# Metric logs

A run writes one JSON object on each line of a metric log.  The series of a field is
the list of its values over the lines, in order; lines without the field add nothing
to it, and blank lines nothing at all.
-/

namespace Logbook

namespace MetricLog

/-- The fields on one line; of a repeated field the last value counts. -/
def fieldsOfLine? (line : List Char) : Option Document :=
  match Json.read (String.ofList line) with
  | some (.object members) => some (SortedMap.ofList (Value.ofJsonMembers members))
  | _ => none

/-- The fields on each line that is not blank, from the given line number on. -/
def lines (path : Path) : Nat → List (Option String) → Except Error (List Document)
  | _, [] => .ok []
  | _, none :: _ => .error .files
  | number, some line :: rest =>
      let line := Text.trim line.toList
      if line.isEmpty then lines path (number + 1) rest
      else match fieldsOfLine? line with
        | some fields => (lines path (number + 1) rest).map (fields :: ·)
        | none => .error (.malformedLog path number)

/-- The values of a field over the lines. -/
def series (lines : List Document) (field : String) : List Value :=
  lines.filterMap fun fields => fields.get? field

/-- The fields that occur on some line. -/
def fields (lines : List Document) : List String :=
  (lines.flatMap SortedMap.keys).eraseDups

/-- The series of every field, under the key of the field. -/
def columns (log : String) (lines : List Document) : SortedMap String Value :=
  SortedMap.ofList ((fields lines).map fun field =>
    (Key.metric log field, .list (series lines field)))

/-- Reads a metric log.  A log that has not been written yet has no fields. -/
def read (disk : Disk) (path : Path) (log : String) : Except Error (SortedMap String Value) :=
  match disk.read path with
  | .ok contents => (lines path 1 contents.lines).map (columns log)
  | .error .notFound => .ok SortedMap.empty
  | .error _ => .error .files

end MetricLog

end Logbook
