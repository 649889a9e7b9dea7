import Logbook.Artifact.Loader
import Logbook.Metric.Loader

/-!
# What has been loaded

Rows refer to loaders and to computed fields by number, so that copies of a row
share them.  A `Shelf` holds their states, and a `Reading` is a computation that may
load: it looks at the disk without changing it, changes the shelf, and can fail, in
which case what it did to the shelf before stays.

Copies of a row share the function of a computed field and so the count of its
calls, but each has a cell of its own for the value.
-/

namespace Logbook

/-- The function of computed fields, and how often it has been called. -/
structure Source where
  /-- What the function answers to a call of the given number for a key. -/
  answer : Nat → String → Except Error Value
  /-- The number of calls so far. -/
  calls : Nat := 0

/-- A computed field of one row. -/
structure Cell where
  /-- The number of the function that computes it. -/
  source : Nat
  /-- The value, once the function has given one. -/
  value : Option Value := none

/-- The states of all loaders and computed fields, by number. -/
structure Shelf where
  /-- The loaders of metric logs. -/
  metrics : Array MetricLoader := #[]
  /-- The loaders of groups of artifacts. -/
  artifacts : Array ArtifactLoader := #[]
  /-- The functions of computed fields. -/
  sources : Array Source := #[]
  /-- The computed fields. -/
  cells : Array Cell := #[]

/-- A computation that may load from a disk. -/
abbrev Reading := ReaderT Disk (ExceptT Error (StateM Shelf))

namespace Reading

instance : MonadLift (Except Error) Reading := ⟨fun outcome _ shelf => (outcome, shelf)⟩

/-- A computation that only changes the shelf, and cannot fail. -/
def ofShelf {α : Type} (change : Shelf → α × Shelf) : Reading α := fun _ shelf =>
  let (value, shelf) := change shelf
  (.ok value, shelf)

end Reading

namespace Shelf

/-- Asks a metric loader for a key. -/
def fetchMetric (loader : Nat) (key : String) : Reading Value := fun disk shelf =>
  match shelf.metrics[loader]? with
  | some state =>
      let (outcome, state) := state.fetch disk key
      (outcome, { shelf with metrics := shelf.metrics.setIfInBounds loader state })
  | none => (.error .files, shelf)

/-- Asks an artifact loader for a key. -/
def fetchArtifacts (loader : Nat) (key : String) : Reading Value := fun disk shelf =>
  match shelf.artifacts[loader]? with
  | some state =>
      let (outcome, state) := state.fetch disk key
      (outcome, { shelf with artifacts := shelf.artifacts.setIfInBounds loader state })
  | none => (.error .files, shelf)

/-- Calls the function of a computed field. -/
def call (source : Nat) (key : String) : Reading Value := fun _ shelf =>
  match shelf.sources[source]? with
  | some state =>
      let calls := state.calls + 1
      (state.answer calls key,
        { shelf with sources := shelf.sources.setIfInBounds source { state with calls := calls } })
  | none => (.error .files, shelf)

/-- Keeps the value of a computed field. -/
def settle (cell : Nat) (value : Value) : Reading Unit := Reading.ofShelf fun shelf =>
  ((), { shelf with
    cells := shelf.cells.modify cell fun state => { state with value := some value } })

/-- The value of a computed field: the one that it has, or else what the function
gives now, which the field then keeps. -/
def compute (cell : Nat) (key : String) : Reading Value := do
  match (← get).cells[cell]? with
  | some ⟨_, some value⟩ => return value
  | some ⟨source, none⟩ =>
      let value ← call source key
      settle cell value
      return value
  | none => throw .files

/-- The value that a computed field has, if it has been computed. -/
def settled? (shelf : Shelf) (cell : Nat) : Option Value :=
  shelf.cells[cell]?.bind Cell.value

/-- A new computed field for a function, and its number. -/
def addCell (state : Cell) (shelf : Shelf) : Nat × Shelf :=
  (shelf.cells.size, { shelf with cells := shelf.cells.push state })

/-- A new computed field for a new function, and its number. -/
def addComputed (answer : Nat → String → Except Error Value) (shelf : Shelf) : Nat × Shelf :=
  let source := shelf.sources.size
  addCell ⟨source, none⟩ { shelf with sources := shelf.sources.push ⟨answer, 0⟩ }

/-- A computed field with the function and the value of another, and its number. -/
def copyCell (cell : Nat) (shelf : Shelf) : Nat × Shelf :=
  match shelf.cells[cell]? with
  | some state => addCell state shelf
  | none => (cell, shelf)

/-- Releases loaders. -/
def release (metrics artifacts : List Nat) (shelf : Shelf) : Shelf :=
  { shelf with
    metrics := metrics.foldl (fun loaders loader => loaders.modify loader MetricLoader.release)
      shelf.metrics
    artifacts := artifacts.foldl
      (fun loaders loader => loaders.modify loader ArtifactLoader.release) shelf.artifacts }

end Shelf

end Logbook
