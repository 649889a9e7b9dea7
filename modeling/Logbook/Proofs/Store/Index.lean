import Logbook.Proofs.Value.Meaning
import Logbook.SortedMap.Lemmas
import Logbook.Store.Basic

/-!
# What the index of a store holds

A run is posted under a key and a value when the index has it among the runs of that
value.  Each step on the index is described by what it does to the posted runs:

* `mem_runs_add`, `mem_runs_remove`: one run is posted, or no longer posted, under the
  values that are the same as a given one, and nothing else changes;
* `posted_unindex`, `posted_indexDocument`: the same for all fields of a document.

From these follows the invariant `Store.Indexed`: a run is posted under a searchable key
and a value exactly when its document has the same value at the key.  An insertion keeps
it also where it replaces a document, because the values of the old one are taken away
under the very entries under which they were posted.
-/

namespace Logbook

/-! ## Sets of runs -/

namespace RunSet

theorem mem_keys_ofList {ids : List RunId} {id : RunId} : id ∈ (ofList ids).keys ↔ id ∈ ids := by
  rw [ofList, SortedMap.mem_keys_ofList]
  simp

theorem mem_keys_union {left right : RunSet} {id : RunId} :
    id ∈ (left.union right).keys ↔ id ∈ left.keys ∨ id ∈ right.keys := by
  rw [union, mem_keys_ofList, List.mem_append]

theorem mem_keys_intersection {left right : RunSet} {id : RunId} :
    id ∈ (left.intersection right).keys ↔ id ∈ left.keys ∧ id ∈ right.keys := by
  have hright : right.contains id ↔ id ∈ right.keys := SortedMap.contains_iff
  rw [← hright]
  simp [intersection, SortedMap.keys]

theorem mem_keys_erase {ids : RunSet} {id other : RunId} :
    other ∈ (ids.erase id).keys ↔ other ≠ id ∧ other ∈ ids.keys := by
  simp [erase, SortedMap.keys]
  tauto

end RunSet

/-! ## Postings of one key -/

namespace Postings

@[simp] theorem runs_nil (value : Value) : runs value [] = SortedMap.empty := rfl

theorem runs_cons (value other : Value) (ids : RunSet) (postings : Postings) :
    runs value ((other, ids) :: postings) =
      if other.same value then ids else runs value postings := by
  by_cases h : other.same value <;> simp [runs, h]

/-- Adding a run posts it under the values that are the same as the given one. -/
theorem mem_runs_add (value sought : Value) (id other : RunId) (postings : Postings) :
    other ∈ (runs sought (add value id postings)).keys ↔
      other = id ∧ value.same sought ∨ other ∈ (runs sought postings).keys := by
  induction postings with
  | nil =>
    by_cases h : value.same sought <;>
      simp [add, runs_cons, h, RunSet.mem_keys_ofList]
  | cons posting postings ih =>
    obtain ⟨posted, ids⟩ := posting
    by_cases hvalue : posted.same value
    · -- The entry of the value takes the run; the value sought has the same entry or not.
      have hiff : value.same sought = posted.same sought := Bool.eq_iff_iff.mpr
        ⟨Value.same_trans hvalue, Value.same_trans (Value.same_symm hvalue)⟩
      by_cases hsought : posted.same sought <;>
        simp [add, runs_cons, hvalue, hsought, hiff, SortedMap.mem_keys_insert]
    · by_cases hsought : posted.same sought
      · have hnot : ¬ value.same sought := fun h =>
          hvalue (Value.same_trans hsought (Value.same_symm h))
        simp [add, runs_cons, hvalue, hsought, hnot]
      · simp [add, runs_cons, hvalue, hsought, ih]

/-- Removing a run takes it from the values that are the same as the given one. -/
theorem mem_runs_remove (value sought : Value) (id other : RunId) (postings : Postings) :
    other ∈ (runs sought (remove value id postings)).keys ↔
      other ∈ (runs sought postings).keys ∧ ¬ (other = id ∧ value.same sought) := by
  induction postings with
  | nil => simp [remove]
  | cons posting postings ih =>
    obtain ⟨posted, ids⟩ := posting
    by_cases hvalue : posted.same value
    · have hiff : value.same sought = posted.same sought := Bool.eq_iff_iff.mpr
        ⟨Value.same_trans hvalue, Value.same_trans (Value.same_symm hvalue)⟩
      by_cases hsought : posted.same sought <;>
        simp [remove, runs_cons, hvalue, hsought, hiff, RunSet.mem_keys_erase, and_comm]
    · by_cases hsought : posted.same sought
      · have hnot : ¬ value.same sought := fun h =>
          hvalue (Value.same_trans hsought (Value.same_symm h))
        simp [remove, runs_cons, hvalue, hsought, hnot]
      · simp [remove, runs_cons, hvalue, hsought, ih]

end Postings

namespace Store

/-! ## The index of all keys -/

/-- The runs that an index has under a key and a value. -/
def posted (index : SortedMap String Postings) (key : String) (value : Value) : RunSet :=
  ((index.get? key).getD []).runs value

@[simp] theorem posted_empty (key : String) (value : Value) :
    posted SortedMap.empty key value = SortedMap.empty := rfl

theorem posted_insert (index : SortedMap String Postings) (key sought : String)
    (postings : Postings) (value : Value) :
    posted (index.insert key postings) sought value =
      if sought = key then postings.runs value else posted index sought value := by
  unfold posted
  rw [SortedMap.get?_insert]
  split <;> rfl

/-- The index without the value of a field. -/
def unindexField (id : RunId) (index : SortedMap String Postings) (field : String × Value) :
    SortedMap String Postings :=
  match index.get? field.1 with
  | some postings => index.insert field.1 (postings.remove field.2 id)
  | none => index

theorem mem_posted_unindexField (id other : RunId) (index : SortedMap String Postings)
    (field : String × Value) (key : String) (value : Value) :
    other ∈ (posted (unindexField id index field) key value).keys ↔
      other ∈ (posted index key value).keys ∧
        ¬ (other = id ∧ key = field.1 ∧ field.2.same value) := by
  unfold unindexField
  cases hget : index.get? field.1 with
  | none =>
    by_cases hkey : key = field.1
    · have hnone : posted index key value = SortedMap.empty := by simp [posted, hkey, hget]
      simp [hnone]
    · simp [hkey]
  | some postings =>
    rw [posted_insert]
    by_cases hkey : key = field.1
    · simp [hkey, posted, hget, Postings.mem_runs_remove]
    · simp [hkey]

theorem mem_posted_indexField (id other : RunId) (index : SortedMap String Postings)
    (field : String × Value) (key : String) (value : Value) :
    other ∈ (posted (indexField id index field.1 field.2) key value).keys ↔
      other ∈ (posted index key value).keys ∨
        other = id ∧ Key.isSearchable key ∧ key = field.1 ∧ field.2.same value := by
  unfold indexField
  by_cases hsearchable : Key.isSearchable field.1
  · rw [if_pos hsearchable, posted_insert]
    by_cases hkey : key = field.1
    · simp [hkey, hsearchable, posted, Postings.mem_runs_add, or_comm]
    · simp [hkey]
  · rw [if_neg hsearchable]
    grind

/-- Taking the fields of a document away from the index takes its run away from the
values that the fields have, and from no others. -/
theorem mem_posted_unindex (id other : RunId) (document : Document)
    (index : SortedMap String Postings) (key : String) (value : Value) :
    other ∈ (posted (unindex id document index) key value).keys ↔
      other ∈ (posted index key value).keys ∧
        ¬ (other = id ∧ ∃ field, document.get? key = some field ∧ field.same value) := by
  have hfold : unindex id document index = document.entries.foldl (unindexField id) index := rfl
  simp only [hfold, SortedMap.get?_eq_some_iff]
  clear hfold
  generalize document.entries = fields
  induction fields generalizing index with
  | nil => simp
  | cons field fields ih =>
    rw [List.foldl_cons]
    refine (ih _).trans ?_
    rw [mem_posted_unindexField]
    simp only [List.mem_cons]
    grind

/-- Indexing the fields of a document posts its run under the values of those that can
be searched. -/
theorem mem_posted_indexDocument (id other : RunId) (document : Document)
    (index : SortedMap String Postings) (key : String) (value : Value) :
    other ∈ (posted (indexDocument id document index) key value).keys ↔
      other ∈ (posted index key value).keys ∨
        other = id ∧ Key.isSearchable key ∧
          ∃ field, document.get? key = some field ∧ field.same value := by
  simp only [indexDocument, SortedMap.get?_eq_some_iff]
  generalize document.entries = fields
  induction fields generalizing index with
  | nil => simp
  | cons field fields ih =>
    rw [List.foldl_cons]
    refine (ih _).trans ?_
    rw [mem_posted_indexField]
    simp only [List.mem_cons]
    grind

/-! ## The invariant -/

/-- The runs posted under a key and a value are those whose documents have the same
value at the key, if the key can be searched. -/
def Indexed (store : Store) : Prop :=
  ∀ key value id, id ∈ (posted store.index key value).keys ↔
    Key.isSearchable key ∧ ∃ document field, store.get? id = some document ∧
      document.get? key = some field ∧ field.same value

theorem indexed_empty (source : Path) (now : Timestamp) : (empty source now).Indexed := by
  intro key value id
  simp [empty, get?]

theorem get?_insert (store : Store) (id other : RunId) (document : Document) :
    (store.insert id document).get? other =
      if other = id then some document else store.get? other :=
  SortedMap.get?_insert store.runs id document other

/-- Inserting a document, also in the place of another, keeps the index exact. -/
theorem indexed_insert {store : Store} (h : store.Indexed) (id : RunId) (document : Document) :
    (store.insert id document).Indexed := by
  intro key value other
  have hstored := h key value other
  -- What is posted before the new document: of the run itself nothing, of others all.
  cases hget : store.get? id with
  | none =>
    have hindex : (store.insert id document).index = indexDocument id document store.index := by
      simp only [insert, hget]
    rw [hindex, mem_posted_indexDocument, get?_insert]
    split <;> grind
  | some old =>
    have hindex : (store.insert id document).index =
        indexDocument id document (unindex id old store.index) := by
      simp only [insert, hget]
    have hunindexed := mem_posted_unindex id other old store.index key value
    rw [hindex, mem_posted_indexDocument, get?_insert]
    split <;> grind

end Store

end Logbook
