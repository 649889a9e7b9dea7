import Logbook.Key

/-!
# Kinds of fields

The field table of a store says of every key that a run ever had whether its values
are in the store, and then of which type, or are loaded on demand.
-/

namespace Logbook

/-- What kind of field a key is. -/
inductive FieldKind where
  /-- The store has its values, of the type with this name. -/
  | stored (typeName : String)
  /-- A series in a metric log, loaded on demand. -/
  | metric
  /-- A group of artifacts, loaded on demand. -/
  | artifact
  deriving DecidableEq, Repr

namespace FieldKind

/-- The kind of a key that has a value. -/
def of (key : String) (value : Value) : FieldKind :=
  let marker := value.toText?
  if marker == some Marker.artifact.text && Key.startsWith "artifact." key then artifact
  else if marker == some Marker.metric.text && !Key.isSearchable key then metric
  else stored value.typeName

/-- Whether fields of this kind are loaded on demand. -/
def isLazy : FieldKind → Bool
  | stored _ => false
  | _ => true

/-- The text of a kind, in which a field table is saved. -/
def text : FieldKind → String
  | stored typeName => typeName
  | metric => "lazy metric"
  | artifact => "lazy artifact"

instance : ToString FieldKind := ⟨text⟩

/-- The kind that a text stands for; any text but two names a type. -/
def ofText (text : String) : FieldKind :=
  if text == metric.text then metric
  else if text == artifact.text then artifact
  else stored text

end FieldKind

end Logbook
