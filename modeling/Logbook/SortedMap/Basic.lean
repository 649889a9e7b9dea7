/-!
# Finite maps in key order

A `SortedMap` keeps its entries in strictly ascending order of their keys, so a
map has one representation and listing it needs no sorting.  Strings are ordered
by code point, which is also the order of their UTF-8 bytes.
-/

namespace Logbook

universe u v w

/-- A finite map whose entries stand in strictly ascending key order. -/
structure SortedMap (κ : Type u) (α : Type v) [LT κ] where
  /-- The entries in key order. -/
  entries : List (κ × α)
  /-- Keys ascend, so no key occurs twice. -/
  sorted : entries.Pairwise fun left right => left.1 < right.1

namespace SortedMap

variable {κ : Type u} {α : Type v} {β : Type w} [LT κ]

/-- Puts an entry at its place in a sorted list, in the place of an entry with
the same key. -/
def insertEntry [DecidableLT κ] (key : κ) (value : α) : List (κ × α) → List (κ × α)
  | [] => [(key, value)]
  | entry :: rest =>
      if key < entry.1 then (key, value) :: entry :: rest
      else if entry.1 < key then entry :: insertEntry key value rest
      else (key, value) :: rest

/-- A list of entries in key order holds nothing but the new entry and the old. -/
theorem mem_insertEntry [DecidableLT κ] {key : κ} {value : α} {entries : List (κ × α)}
    {entry : κ × α} (hmem : entry ∈ insertEntry key value entries) :
    entry = (key, value) ∨ entry ∈ entries := by
  induction entries with
  | nil => simpa [insertEntry] using hmem
  | cons head rest ih =>
    unfold insertEntry at hmem
    split at hmem
    · simpa using hmem
    · split at hmem
      · rcases List.mem_cons.mp hmem with rfl | hrest
        · simp
        · rcases ih hrest with h | h <;> simp [h]
      · rcases List.mem_cons.mp hmem with h | h <;> simp [h]

theorem sorted_insertEntry [LE κ] [Std.IsLinearOrder κ] [Std.LawfulOrderLT κ] [DecidableLT κ]
    {key : κ} {value : α} {entries : List (κ × α)}
    (hsorted : entries.Pairwise fun left right => left.1 < right.1) :
    (insertEntry key value entries).Pairwise fun left right => left.1 < right.1 := by
  induction entries with
  | nil => simp [insertEntry]
  | cons head rest ih =>
    have hhead := List.pairwise_cons.mp hsorted
    unfold insertEntry
    split
    · next hlt =>
      refine List.pairwise_cons.mpr ⟨fun entry hmem => ?_, hsorted⟩
      rcases List.mem_cons.mp hmem with rfl | hrest
      · exact hlt
      · exact Std.lt_trans hlt (hhead.1 entry hrest)
    · next hnot =>
      split
      · next hlt =>
        refine List.pairwise_cons.mpr ⟨fun entry hmem => ?_, ih hhead.2⟩
        rcases mem_insertEntry hmem with rfl | hrest
        · exact hlt
        · exact hhead.1 entry hrest
      · next hnot' =>
        have hsame : head.1 = key := by
          rcases Std.lt_trichotomy head.1 key with h | h | h
          · exact absurd h hnot'
          · exact h
          · exact absurd h hnot
        refine List.pairwise_cons.mpr ⟨fun entry hmem => ?_, hhead.2⟩
        exact hsame ▸ hhead.1 entry hmem

/-- The map without entries. -/
def empty : SortedMap κ α := ⟨[], List.Pairwise.nil⟩

instance : EmptyCollection (SortedMap κ α) := ⟨empty⟩
instance : Inhabited (SortedMap κ α) := ⟨empty⟩

/-- Adds an entry, replacing one with the same key. -/
def insert [LE κ] [Std.IsLinearOrder κ] [Std.LawfulOrderLT κ] [DecidableLT κ] (map : SortedMap κ α)
    (key : κ) (value : α) : SortedMap κ α :=
  ⟨insertEntry key value map.entries, sorted_insertEntry map.sorted⟩

/-- The map of a list of entries; of entries with one key the last counts. -/
def ofList [LE κ] [Std.IsLinearOrder κ] [Std.LawfulOrderLT κ] [DecidableLT κ]
    (entries : List (κ × α)) : SortedMap κ α :=
  entries.foldl (fun map entry => map.insert entry.1 entry.2) empty

/-- The value of a key. -/
def get? [DecidableEq κ] (map : SortedMap κ α) (key : κ) : Option α :=
  (map.entries.find? fun entry => entry.1 = key).map Prod.snd

/-- Whether a key has a value. -/
def contains [DecidableEq κ] (map : SortedMap κ α) (key : κ) : Bool :=
  (map.get? key).isSome

/-- The keys in ascending order. -/
def keys (map : SortedMap κ α) : List κ := map.entries.map Prod.fst

/-- The number of entries. -/
def size (map : SortedMap κ α) : Nat := map.entries.length

/-- Whether there are no entries. -/
def isEmpty (map : SortedMap κ α) : Bool := map.entries.isEmpty

/-- Keeps the entries that pass a test. -/
def filter (keep : κ → α → Bool) (map : SortedMap κ α) : SortedMap κ α :=
  ⟨map.entries.filter fun entry => keep entry.1 entry.2, map.sorted.filter _⟩

/-- Replaces every value by one made from it and its key. -/
def mapValues (transform : κ → α → β) (map : SortedMap κ α) : SortedMap κ β :=
  ⟨map.entries.map fun entry => (entry.1, transform entry.1 entry.2),
    List.pairwise_map.mpr map.sorted⟩

@[simp] theorem entries_empty : (empty : SortedMap κ α).entries = [] := rfl

@[simp] theorem get?_empty [DecidableEq κ] (key : κ) : (empty : SortedMap κ α).get? key = none :=
  rfl

@[simp] theorem keys_mapValues (transform : κ → α → β) (map : SortedMap κ α) :
    (map.mapValues transform).keys = map.keys := by
  simp [keys, mapValues]

end SortedMap

end Logbook
