import Logbook.Query.Predicate
import Logbook.Run
import Logbook.Store.FieldKind
import Logbook.Store.Timestamp

/-!
# Stores

A `Store` holds the documents of runs by number, the kinds of all keys that they ever
had, and an index: for each searchable key and each of its values the runs that have
it.  With the index a search looks only at runs that can satisfy a predicate, where
the predicate says something about equal values.
-/

namespace Logbook

/-- A set of runs, by number. -/
abbrev RunSet := SortedMap RunId Unit

namespace RunSet

/-- The set of some runs. -/
def ofList (ids : List RunId) : RunSet := SortedMap.ofList (ids.map fun id => (id, ()))

/-- The runs in either of two sets. -/
def union (left right : RunSet) : RunSet := ofList (left.keys ++ right.keys)

/-- The runs in both of two sets. -/
def intersection (left right : RunSet) : RunSet := left.filter fun id _ => right.contains id

/-- A set without one run. -/
def erase (ids : RunSet) (id : RunId) : RunSet := ids.filter fun other _ => other != id

end RunSet

/-- The runs that have each value of a key.  Values that mean the same share an
entry. -/
abbrev Postings := List (Value × RunSet)

namespace Postings

/-- Adds a run to those that have a value. -/
def add (value : Value) (id : RunId) : Postings → Postings
  | [] => [(value, RunSet.ofList [id])]
  | (other, ids) :: postings =>
      if other.same value then (other, ids.insert id ()) :: postings
      else (other, ids) :: add value id postings

/-- Takes a run away from those that have a value. -/
def remove (value : Value) (id : RunId) : Postings → Postings
  | [] => []
  | (other, ids) :: postings =>
      if other.same value then (other, ids.erase id) :: postings
      else (other, ids) :: remove value id postings

/-- The runs that have a value. -/
def runs (value : Value) (postings : Postings) : RunSet :=
  ((postings.find? fun posting => posting.1.same value).map Prod.snd).getD SortedMap.empty

end Postings

/-- Where and when documents were collected. -/
structure Header where
  /-- The moment. -/
  createdAt : Timestamp
  /-- The directory of the run directories. -/
  source : Path

/-- The documents of runs. -/
structure Store where
  /-- Where and when the documents were collected. -/
  header : Header
  /-- The documents, by number of the run. -/
  runs : SortedMap RunId Document
  /-- The kind of each key. -/
  fields : SortedMap String FieldKind
  /-- The runs that have each value of each searchable key. -/
  index : SortedMap String Postings

namespace Store

/-- A store without runs. -/
def empty (source : Path) (now : Timestamp) : Store :=
  ⟨⟨now, source⟩, SortedMap.empty, SortedMap.empty, SortedMap.empty⟩

/-- The number of runs. -/
def size (store : Store) : Nat := store.runs.size

/-- Whether there are no runs. -/
def isEmpty (store : Store) : Bool := store.runs.isEmpty

/-- The document of a run. -/
def get? (store : Store) (id : RunId) : Option Document := store.runs.get? id

/-- The kinds of the keys that queries can refer to. -/
def searchable (store : Store) : SortedMap String FieldKind :=
  store.fields.filter fun key _ => Key.isSearchable key

/-- The index without the values of a document. -/
def unindex (id : RunId) (document : Document) (index : SortedMap String Postings) :
    SortedMap String Postings :=
  document.entries.foldl (fun index field =>
    match index.get? field.1 with
    | some postings => index.insert field.1 (postings.remove field.2 id)
    | none => index) index

/-- The index with the value of a field, if the key is searchable. -/
def indexField (id : RunId) (index : SortedMap String Postings) (key : String) (value : Value) :
    SortedMap String Postings :=
  if Key.isSearchable key then index.insert key (((index.get? key).getD []).add value id)
  else index

/-- The index with the values of a document. -/
def indexDocument (id : RunId) (document : Document) (index : SortedMap String Postings) :
    SortedMap String Postings :=
  document.entries.foldl (fun index field => indexField id index field.1 field.2) index

/-- Puts the document of a run into the store, in the place of an earlier one.  The
kinds of keys that only the earlier one had stay. -/
def insert (store : Store) (id : RunId) (document : Document) : Store :=
  let index := match store.get? id with
    | some old => unindex id old store.index
    | none => store.index
  { store with
    runs := store.runs.insert id document
    fields := document.entries.foldl
      (fun fields field => fields.insert field.1 (FieldKind.of field.1 field.2)) store.fields
    index := indexDocument id document index }

/-- The store without runs and keys, as of now. -/
def clear (store : Store) (now : Timestamp) : Store := empty store.header.source now

/-- The runs that have one of some values of a key; none if the key is not indexed. -/
def lookup? (store : Store) (key : String) (values : List Value) : Option RunSet :=
  if Key.isSearchable key then
    let postings := (store.index.get? key).getD []
    some (RunSet.ofList (values.flatMap fun value => (postings.runs value).keys))
  else none

/-- Runs among which are all that satisfy a predicate; none if the index says nothing
about it. -/
def candidates? (store : Store) : Predicate → Option RunSet
  | .compare key .equal literal => store.lookup? key [literal]
  | .oneOf key literals => store.lookup? key literals
  | .and left right =>
      match store.candidates? left, store.candidates? right with
      | some left, some right => some (left.intersection right)
      | some ids, none | none, some ids => some ids
      | none, none => none
  | .or left right =>
      match store.candidates? left, store.candidates? right with
      | some left, some right => some (left.union right)
      | _, _ => none
  | .compare _ _ _ | .not _ => none

/-- The runs that satisfy a predicate, in the order of their numbers. -/
def search (store : Store) (predicate : Predicate) : List (RunId × Document) :=
  let runs := match store.candidates? predicate with
    | some ids => ids.keys.filterMap fun id => (store.get? id).map fun document => (id, document)
    | none => store.runs.entries
  runs.filter fun run => predicate.holds run.2

end Store

end Logbook
