import Logbook.Text.Blank

/-!
# Modes of application

What a mapping is called with, and how often, depends on its mode of application:

| mode       | called                  | with                         |
|------------|-------------------------|------------------------------|
| pointwise  | per row and input key   | the cell                     |
| columnwise | per input key           | the whole column as a list   |
| rowwise    | per row                 | the cells of all input keys  |
| generic    | once                    | the columns of all input keys |
-/

namespace Logbook

/-- How a mapping is applied to a frame. -/
inductive Mode where
  /-- To every cell of every input column on its own. -/
  | pointwise
  /-- To every input column as a whole. -/
  | columnwise
  /-- To the input cells of every row. -/
  | rowwise
  /-- To all input columns at once. -/
  | generic
  deriving DecidableEq, Repr

namespace Mode

/-- The name of a mode. -/
def name : Mode → String
  | pointwise => "pointwise"
  | columnwise => "columnwise"
  | rowwise => "rowwise"
  | generic => "generic"

instance : ToString Mode := ⟨name⟩

/-- All modes. -/
def all : List Mode := [pointwise, columnwise, rowwise, generic]

/-- The mode with the given name; the case of ASCII letters does not matter. -/
def ofText? (text : String) : Option Mode :=
  all.find? fun mode => Text.sameIgnoringCase text mode.name

end Mode

end Logbook
