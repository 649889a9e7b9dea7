import Logbook.Error
import Logbook.Value.Json
import Logbook.Yaml.Record

/-!
# Settings of an archive

Settings name the directory of the runs, the directory and name of the snapshot and
whether it is rebuilt.  They are read from YAML or JSON; a key that no setting has,
a key that is repeated and a value of the wrong type are errors.
-/

namespace Logbook

/-- How the result of a query is given. -/
inductive ResultFormat where
  /-- As rows whose fields are loaded when they are read. -/
  | records
  /-- As a table with all fields loaded. -/
  | table
  deriving DecidableEq, Repr

namespace ResultFormat

/-- The name of a format. -/
def name : ResultFormat → String
  | records => "records"
  | table => "table"

/-- The format with the given name. -/
def ofText (text : String) : Except Error ResultFormat :=
  match [records, table].find? fun format => format.name == text with
  | some format => .ok format
  | none => .error (.unknownFormat text)

end ResultFormat

/-- Where an archive is and where its snapshot goes. -/
structure Settings where
  /-- The directory of the run directories. -/
  source : Path
  /-- The directory of the snapshot; the source unless it is given. -/
  destination : Option Path := none
  /-- Whether the snapshot is rebuilt even if there is one. -/
  refresh : Bool := false
  /-- The name of the snapshot without its extension. -/
  name : String := "database"

namespace Settings

/-- Settings of which the source may still be missing. -/
structure Draft where
  /-- The directory of the run directories. -/
  source : Option Path := none
  /-- The directory of the snapshot. -/
  destination : Option Path := none
  /-- Whether the snapshot is rebuilt. -/
  refresh : Bool := false
  /-- The name of the snapshot. -/
  name : String := "database"

/-- The keys of settings, in the order of settings that are given as a list. -/
def keys : List String := ["src_dir", "dst_dir", "refresh", "database_name"]

/-- Sets what a key stands for to a value. -/
def Draft.set? (draft : Draft) (key : String) (value : Value) : Option Draft :=
  match key, value with
  | "src_dir", .str text => some { draft with source := some ⟨text⟩ }
  | "dst_dir", .str text => some { draft with destination := some ⟨text⟩ }
  | "dst_dir", .null => some { draft with destination := none }
  | "refresh", .bool truth => some { draft with refresh := truth }
  | "database_name", .str text => some { draft with name := text }
  | _, _ => none

/-- Sets what a key stands for to what a node says. -/
def Draft.setNode? (draft : Draft) (key : String) (node : Yaml.Node Nat) : Option Draft :=
  match key with
  | "src_dir" => node.text?.map fun text => { draft with source := some ⟨text⟩ }
  | "dst_dir" => node.optionalText?.map fun text? => { draft with destination := text?.map Path.mk }
  | "refresh" => node.truth?.map fun truth => { draft with refresh := truth }
  | "database_name" => node.text?.map fun text => { draft with name := text }
  | _ => none

/-- The settings of a draft that names the source. -/
def ofDraft? (draft : Draft) : Option Settings :=
  draft.source.map fun source => ⟨source, draft.destination, draft.refresh, draft.name⟩

/-- The settings that keys stand for; no key may occur twice. -/
def ofMembers? {α : Type} (set? : Draft → String → α → Option Draft)
    (members : List (String × α)) : Option Settings :=
  if (members.map Prod.fst).eraseDups.length = members.length then
    (members.foldlM (fun draft member => set? draft member.1 member.2) {}).bind ofDraft?
  else none

/-- The settings that members with values stand for. -/
def ofValues? (members : List (String × Value)) : Option Settings := ofMembers? Draft.set? members

/-- The settings that a list of values stands for, in the order of `keys`. -/
def ofItems? (items : List Value) : Option Settings :=
  if items.length ≤ keys.length then ofValues? (keys.zip items) else none

/-- Reads settings from a YAML mapping. -/
def ofYaml (text : String) : Except Error Settings :=
  let settings? := do ofMembers? Draft.setNode? (← (← Yaml.document? text).members?)
  settings?.elim (.error .yaml) .ok

/-- Reads settings from a JSON object or array. -/
def ofJson (text : String) : Except Error Settings :=
  match Json.read text with
  | some (.object members) => (ofValues? (Value.ofJsonMembers members)).elim (.error .json) .ok
  | some (.array items) => (ofItems? (Value.ofJsonItems items)).elim (.error .json) .ok
  | _ => .error .json

end Settings

end Logbook
