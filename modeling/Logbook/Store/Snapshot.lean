import Logbook.Disk
import Logbook.Error
import Logbook.Run.Scan
import Logbook.Store.Basic

/-!
# Snapshots

A store is saved as one JSON document with a header, the documents by number of the
run, and the field table.  The index is not saved, since inserting the documents makes
it again; the saved field table then says more than they do, because it also has the
keys that no run has any more.
-/

namespace Logbook

namespace Store

/-- The members of an object for the entries of a document. -/
def documentMembers (document : Document) : List (String × Json) :=
  document.entries.map fun field => (field.1, field.2.toJson)

/-- The JSON document of a store. -/
def toJson (store : Store) : Json :=
  .object [
    ("header", .object [
      ("created_at", .string store.header.createdAt.text),
      ("src_dir", .string store.header.source.text)]),
    ("runs", .object (store.runs.entries.map fun run =>
      (Run.name run.1, .object (documentMembers run.2)))),
    ("fields", .object (store.fields.entries.map fun field => (field.1, .string field.2.text)))]

/-- The parts of a JSON object with the given keys, each of which has to occur once; the
values of other members mean nothing.  An array gives the parts in order. -/
def parts? (keys : List String) : Json.Draft → Option (List Json.Draft)
  | .object members => do
      let members ← members.mapM fun (key, value) => (Json.text? key).map fun key => (key, value)
      keys.mapM fun key =>
        match members.filter fun member => member.1 == key with
        | [member] => some member.2
        | _ => none
  | .array items => if items.length = keys.length then some items else none
  | _ => none

/-- The header that a part of a snapshot stands for. -/
def header? (draft : Json.Draft) : Option Header := do
  match ← parts? ["created_at", "src_dir"] draft with
  | [.string createdAt, .string source] =>
      let createdAt ← Timestamp.ofText? (← Json.text? createdAt)
      some ⟨createdAt, ⟨← Json.text? source⟩⟩
  | _ => none

/-- The number of a run as a key; it has no needless zeros and no escapes. -/
def runOfKey? (key : List Json.Piece) : Option RunId := do
  let name ← Json.literalText? key
  let id ← Run.id? name
  if Run.name id == name then some id else none

/-- How deep arrays and objects may be nested in the documents of runs, which are three
objects deep in a snapshot. -/
def documentDepth : Nat := Json.maxDepth - 3

/-- The run that a member of the runs stands for. -/
def run? (member : List Json.Piece × Json.Draft) : Option (RunId × Document) := do
  let id ← runOfKey? member.1
  match member.2 with
  | .object members =>
      let members ← Json.Draft.resolveMembers? documentDepth members
      some (id, SortedMap.ofList (Value.ofJsonMembers members))
  | _ => none

/-- The entry of the field table that a member of the fields stands for. -/
def field? (member : List Json.Piece × Json.Draft) : Option (String × FieldKind) :=
  match member.2 with
  | .string kind => do some (← Json.text? member.1, .ofText (← Json.text? kind))
  | _ => none

/-- The store with documents inserted in the order of their numbers and the field
table laid over the one that results. -/
def ofParts (header : Header) (runs : List (RunId × Document))
    (fields : List (String × FieldKind)) : Store :=
  let store := (SortedMap.ofList runs).entries.foldl
    (fun store run => store.insert run.1 run.2) (empty header.source header.createdAt)
  { store with
    fields := fields.foldl (fun fields field => fields.insert field.1 field.2) store.fields }

/-- The store that a JSON document stands for. -/
def ofDraft? (draft : Json.Draft) : Option Store := do
  match ← parts? ["header", "runs", "fields"] draft with
  | [header, .object runs, .object fields] =>
      return ofParts (← header? header) (← runs.mapM run?) (← fields.mapM field?)
  | _ => none

/-- The text of a snapshot. -/
def toText (store : Store) : String := store.toJson.pretty

/-- Reads the text of a snapshot. -/
def ofText? (text : String) : Option Store := (Json.Draft.read text).bind ofDraft?

/-- Writes a snapshot. -/
def save (store : Store) (path : Path) (disk : Disk) : Except Error Disk :=
  (disk.write path (.text store.toText)).mapError fun _ => .unwritableSnapshot path

/-- Reads a snapshot. -/
def load (path : Path) (disk : Disk) : Except Error Store :=
  match disk.readText path with
  | .error _ => .error (.unreadableSnapshot path)
  | .ok text => (ofText? text).elim (.error (.corruptSnapshot path)) .ok

end Store

end Logbook
