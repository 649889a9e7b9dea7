import Logbook.Mapping.Mode
import Logbook.Query.Parser
import Logbook.Run

/-!
# Errors

An `Error` is the cause of a failure.  The kind of an error says which part of a
request was wrong, and its message says what, in words that start with the kind.
Failures of the file system, of JSON and of YAML are told apart by kind alone.
-/

namespace Logbook

/-- Why an operation failed. -/
inductive Error where
  /-- A text is not a query. -/
  | query (cause : QueryError)
  /-- A key is not a column of the frame. -/
  | unknownColumn (key : String) (columns : List String)
  /-- A row lacks a key that rows are grouped by. -/
  | ungroupable (position : Nat) (run : Option RunId) (key : String)
  /-- There is no mapping to apply. -/
  | noMapping
  /-- A mapping has no input. -/
  | noInput (mapping : String)
  /-- The declared outputs of a mapping do not fit its inputs. -/
  | misfitOutputs (mapping : String) (outputs inputs : Nat) (mode : Mode)
  /-- A mapping returned the wrong number of values. -/
  | misfitResults (mapping : String) (results expected : Nat) (mode : Mode)
  /-- Some outputs have one value for each row and others have not. -/
  | mixedShapes (keeping : List String) (rows : Nat)
  /-- A mapping that has to keep the rows reduces them. -/
  | reducing (rows : Nat)
  /-- A filter has not just one output. -/
  | filterOutputs (mapping : String)
  /-- A filter does not give one value for each row. -/
  | filterSize (mapping : String) (rows : Nat)
  /-- A mode has no such name. -/
  | unknownMode (text : String)
  /-- A summary of numbers meets a value of another type. -/
  | notNumeric (mapping : String) (typeName : String)
  /-- Artifacts of a type cannot be loaded. -/
  | noCodec (kind : String) (key : String)
  /-- The list of a run's artifacts cannot be read. -/
  | unreadableRegistry (path : Path)
  /-- The payload of an artifact cannot be read. -/
  | unreadableArtifact (path : Path)
  /-- A key is not in the list of a run's artifacts. -/
  | unlistedArtifact (key : String) (registry : Path)
  /-- A key does not occur in its metric log. -/
  | absentMetric (key : String) (log : Path)
  /-- A line of a metric log is not a JSON object. -/
  | malformedLog (path : Path) (line : Nat)
  /-- A directory cannot be written to. -/
  | denied (path : Path)
  /-- A format has no such name. -/
  | unknownFormat (text : String)
  /-- A snapshot cannot be written. -/
  | unwritableSnapshot (path : Path)
  /-- A snapshot cannot be read. -/
  | unreadableSnapshot (path : Path)
  /-- A file is not a snapshot. -/
  | corruptSnapshot (path : Path)
  /-- The file system refuses. -/
  | files
  /-- A text is not the JSON document that is expected. -/
  | json
  /-- A text is not the YAML document that is expected. -/
  | yaml
  /-- A function that was passed in fails. -/
  | failure (text : String)

/-- What kind of thing was wrong. -/
inductive ErrorKind where
  /-- The grammar of a query. -/
  | grammar
  /-- A key. -/
  | key
  /-- A mapping. -/
  | mapping
  /-- An artifact. -/
  | artifact
  /-- A field without data. -/
  | missing
  /-- The right to write. -/
  | permission
  /-- The name of a format. -/
  | format
  /-- A stored file. -/
  | storage
  /-- The file system. -/
  | files
  /-- A JSON text. -/
  | json
  /-- A YAML text. -/
  | yaml
  /-- Anything else. -/
  | other
  deriving DecidableEq, Repr

namespace ErrorKind

/-- The words that a message of the given kind starts with. -/
def opening : ErrorKind → String
  | .grammar => "Syntax error in query: "
  | .key => "Invalid key: "
  | .mapping => "Invalid map: "
  | .artifact => "Invalid artifact: "
  | .missing => "Missing field: "
  | .permission => "Permission denied for "
  | .format => "Invalid format string: "
  | .storage => "Storage error: "
  | .files => "IO error"
  | .json => "JSON error"
  | .yaml => "YAML error"
  | .other => ""

end ErrorKind

namespace Error

/-- The kind of an error. -/
def kind : Error → ErrorKind
  | query cause => if cause.isMalformed then .grammar else .key
  | unknownColumn .. | ungroupable .. => .key
  | noMapping | noInput .. | misfitOutputs .. | misfitResults .. | mixedShapes .. | reducing ..
  | filterOutputs .. | filterSize .. | unknownMode .. | notNumeric .. => .mapping
  | noCodec .. | unreadableRegistry .. | unreadableArtifact .. => .artifact
  | unlistedArtifact .. | absentMetric .. => .missing
  | denied .. => .permission
  | unknownFormat .. => .format
  | malformedLog .. | unwritableSnapshot .. | unreadableSnapshot .. | corruptSnapshot .. => .storage
  | files => .files
  | json => .json
  | yaml => .yaml
  | failure .. => .other

/-- What is wrong, without the words for the kind. -/
def detail : Error → String
  | query cause => cause.message
  | unknownColumn key columns =>
      "The provided key " ++ key ++ " is invalid! Valid keys are: " ++ Text.quoteList columns
  | ungroupable position run key =>
      let run := match run with
        | some id => " (run " ++ Run.name id ++ ")"
        | none => ""
      "Row " ++ position.repr ++ run ++ " has no value for the grouping key " ++ key
  | noMapping => "No map was given"
  | noInput mapping => "Map '" ++ mapping ++ "' has no input key"
  | misfitOutputs mapping outputs inputs mode =>
      "Map '" ++ mapping ++ "' declares " ++ outputs.repr ++ " output(s) for " ++ inputs.repr ++
        " input(s), which does not fit " ++ mode.name ++ " application"
  | misfitResults mapping results expected mode =>
      "Map '" ++ mapping ++ "' returned " ++ results.repr ++ " value(s) where " ++ mode.name ++
        " application expects " ++ expected.repr
  | mixedShapes keeping rows =>
      "Cannot mix reducing and non-reducing maps in one call: " ++ Text.quoteList keeping ++
        " keep " ++ rows.repr ++ " rows while the other outputs do not"
  | reducing rows =>
      "transform must keep " ++ rows.repr ++ " rows, use aggregate to reduce columns"
  | filterOutputs mapping =>
      "Invalid filter map '" ++ mapping ++ "': should have a single boolean output"
  | filterSize mapping rows =>
      "Invalid filter map '" ++ mapping ++ "': should keep the same size as the collection (" ++
        rows.repr ++ " rows)"
  | unknownMode text =>
      "Unknown map mode '" ++ text ++ "'. Valid modes are: " ++
        ", ".intercalate (Mode.all.map Mode.name)
  | notNumeric mapping typeName =>
      mapping ++ " expects numbers or numeric series, got " ++ typeName
  | noCodec kind key =>
      "No loader registered for artifact type '" ++ kind ++ "' (field " ++ key ++ ")"
  | unreadableRegistry path => "Cannot read artifact registry " ++ path.text
  | unreadableArtifact path => "Cannot read artifact " ++ path.text
  | unlistedArtifact key registry => key ++ " is not listed in " ++ registry.text
  | absentMetric key log => key ++ " is registered but absent from " ++ log.text
  | malformedLog path line => "Malformed metric log " ++ path.text ++ " at line " ++ line.repr
  | denied path => path.text ++ "\nPlease select a different destination directory."
  | unknownFormat text => text ++ ". Valid formats are: [\"records\", \"table\"]"
  | unwritableSnapshot path => "Failed to write snapshot " ++ path.text
  | unreadableSnapshot path => "Failed to read snapshot " ++ path.text
  | corruptSnapshot path => "Corrupt snapshot " ++ path.text
  | files | json | yaml => ""
  | failure text => text

/-- What is wrong, in words. -/
def message (error : Error) : String := error.kind.opening ++ error.detail

end Error

end Logbook
