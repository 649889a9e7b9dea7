import Logbook.Error

/-!
# Mappings

A `Mapping` is a named function from values to values together with the columns it
reads and, if they are given, the columns it writes.  Output columns that are not
given are named after the function and its inputs.
-/

namespace Logbook

/-- A named function over input columns. -/
structure Mapping where
  /-- The name of the function. -/
  name : String
  /-- The keys of the input columns. -/
  inputs : List String
  /-- The keys of the output columns, if they are given. -/
  outputs : Option (List String)
  /-- What the function returns for the values it is called with. -/
  call : List Value → Except Error (List Value)

namespace Mapping

/-- The mapping of a function of one value. -/
def unary (name : String) (inputs : List String) (function : Value → Value) : Mapping where
  name := name
  inputs := inputs
  outputs := none
  call arguments := .ok [function (arguments.head?.getD .null)]

/-- The same mapping with its outputs given. -/
def withOutputs (mapping : Mapping) (outputs : List String) : Mapping :=
  { mapping with outputs := some outputs }

/-- The key of an output that is named after the function and an input. -/
def derivedKey (mapping : Mapping) (input : String) : String :=
  "f" ++ mapping.name ++ "." ++ input

/-- The keys of the output columns under a mode. -/
def outputKeys (mapping : Mapping) (mode : Mode) : List String :=
  match mapping.outputs, mode with
  | some outputs, _ => outputs
  | none, .pointwise | none, .columnwise => mapping.inputs.map mapping.derivedKey
  | none, .rowwise | none, .generic => [mapping.derivedKey ("_".intercalate mapping.inputs)]

/-- Whether so many outputs fit so many inputs under a mode. -/
def fits (mode : Mode) (outputs inputs : Nat) : Bool :=
  match mode with
  | .pointwise => outputs == inputs
  | .columnwise => outputs != 0 && outputs % inputs == 0
  | .rowwise | .generic => outputs != 0

/-- Calls the function and checks the number of values that it returns. -/
def results (mapping : Mapping) (mode : Mode) (expected : Nat) (arguments : List Value) :
    Except Error (List Value) := do
  let values ← mapping.call arguments
  if values.length = expected then .ok values
  else .error (.misfitResults mapping.name values.length expected mode)

end Mapping

/-- A mapping whose outputs fit the mode in which it is going to be applied. -/
structure Plan where
  /-- The mapping. -/
  mapping : Mapping
  /-- The keys of its output columns. -/
  outputs : List String

namespace Plan

/-- Checks a mapping before anything is read.  Its inputs have to be among the
columns, if columns are given. -/
def ofMapping (mode : Mode) (columns : Option (List String)) (mapping : Mapping) :
    Except Error Plan :=
  let outputs := mapping.outputKeys mode
  let unknown := columns.bind fun columns =>
    (mapping.inputs.find? fun key => !columns.contains key).map fun key => (key, columns)
  if mapping.inputs.isEmpty then .error (.noInput mapping.name)
  else match unknown with
    | some (key, columns) => .error (.unknownColumn key columns)
    | none =>
        if Mapping.fits mode outputs.length mapping.inputs.length then .ok ⟨mapping, outputs⟩
        else .error (.misfitOutputs mapping.name outputs.length mapping.inputs.length mode)

/-- Checks mappings one after another; there has to be at least one. -/
def ofMappings (mode : Mode) (columns : Option (List String)) (mappings : List Mapping) :
    Except Error (List Plan) :=
  if mappings.isEmpty then .error .noMapping else mappings.mapM (ofMapping mode columns)

/-- The outputs that belong to each input when there are equally many for each. -/
def outputsOfInputs (plan : Plan) : List (String × List String) :=
  let share := plan.outputs.length / plan.mapping.inputs.length
  plan.mapping.inputs.zipIdx.map fun (input, position) =>
    (input, (plan.outputs.drop (position * share)).take share)

/-- The outputs of a call in columnwise mode. -/
def columnwise (column : String → List Value) (plan : Plan) :
    Except Error (List (String × Value)) := do
  let parts ← plan.outputsOfInputs.mapM fun (input, outputs) => do
    let values ← plan.mapping.results .columnwise (plan.outputs.length / plan.mapping.inputs.length)
      [.list (column input)]
    return outputs.zip values
  return parts.flatten

/-- The outputs of a call in generic mode. -/
def generic (column : String → List Value) (plan : Plan) :
    Except Error (List (String × Value)) := do
  let values ← plan.mapping.results .generic plan.outputs.length
    (plan.mapping.inputs.map fun input => .list (column input))
  return plan.outputs.zip values

/-- The outputs of a call in rowwise mode. -/
def rowwise (cells : List Value) (plan : Plan) : Except Error (List (String × Value)) := do
  let values ← plan.mapping.results .rowwise plan.outputs.length cells
  return plan.outputs.zip values

/-- The output of a call in pointwise mode. -/
def pointwise (cell : Value) (output : String) (plan : Plan) :
    Except Error (List (String × Value)) := do
  let values ← plan.mapping.results .pointwise 1 [cell]
  return values.map fun value => (output, value)

end Plan

/-- What the outputs of whole columns amount to. -/
inductive Shape where
  /-- Every output has a value for each row; the fields of each row. -/
  | rows (fields : List (List (String × Value)))
  /-- No output has; the fields of a single row. -/
  | reduced (fields : List (String × Value))

namespace Shape

/-- Whether an output has one value for each of so many rows. -/
def keeps (rows : Nat) : Value → Bool
  | .list items => items.length == rows
  | _ => false

/-- The fields of each row, from outputs that have one value for each. -/
def spread (rows : Nat) (outputs : List (String × Value)) : List (List (String × Value)) :=
  (List.range rows).map fun position =>
    outputs.filterMap fun (key, value) =>
      value.toItems?.bind fun items => items[position]?.map fun item => (key, item)

/-- The shape of outputs over so many rows.  Either all of them have one value for
each row, or none has. -/
def ofOutputs (rows : Nat) (outputs : List (String × Value)) : Except Error Shape :=
  let keeping := outputs.filter fun output => keeps rows output.2
  if keeping.length = outputs.length && !outputs.isEmpty then .ok (.rows (spread rows outputs))
  else if keeping.isEmpty then .ok (.reduced outputs)
  else .error (.mixedShapes (keeping.map Prod.fst) rows)

end Shape

end Logbook
