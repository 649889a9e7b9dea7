import Logbook.Proofs.Store.Search

/-!
# The index holds what the documents have, and nothing else

A search looks at the documents again, so it would hide a run that the index still has under
a value that its document has lost.  Here the index itself is shown to be exact
(`Store.exact_of_changes`): whatever a session has done, each searchable key and value has the
runs whose documents have an equal value there, each value has one entry, and other keys have
none.

## Strategy

Which runs are posted is said by `Store.Indexed`, which every change keeps.  What is added here
is the shape of the index, `Store.Tidy`.  Taking a run away leaves all entries where they are
(`Postings.values_remove`), and adding one opens an entry only for a value that equals none of
those that have one (`Postings.values_add`).
-/

namespace Logbook

/-- Two sets with the same runs are one. -/
theorem RunSet.eq_of_mem_iff {left right : RunSet}
    (h : ∀ id, id ∈ left.keys ↔ id ∈ right.keys) : left = right := by
  apply SortedMap.ext_get?
  intro id
  have hnone : left.get? id = none ↔ right.get? id = none := by
    rw [SortedMap.get?_eq_none_iff, SortedMap.get?_eq_none_iff, h id]
  cases hleft : left.get? id with
  | none => exact (hnone.mp hleft).symm
  | some _ =>
    cases hright : right.get? id with
    | none => exact absurd (hnone.mpr hright) (by simp [hleft])
    | some _ => rfl

/-! ## One entry for each value -/

namespace Postings

/-- The values that have entries. -/
def values (postings : Postings) : List Value := postings.map Prod.fst

/-- No two entries are for equal values. -/
def Distinct (postings : Postings) : Prop :=
  postings.values.Pairwise fun first second => first.same second = false

theorem values_remove (value : Value) (id : RunId) (postings : Postings) :
    (remove value id postings).values = postings.values := by
  induction postings with
  | nil => rfl
  | cons posting postings ih =>
    obtain ⟨other, ids⟩ := posting
    rw [remove]
    split
    · rfl
    · exact congrArg (other :: ·) ih

/-- Adding a run opens an entry only for a value that equals no other. -/
theorem values_add (value : Value) (id : RunId) (postings : Postings) :
    (add value id postings).values = postings.values ∨
      (∀ other ∈ postings.values, other.same value = false) ∧
        (add value id postings).values = postings.values ++ [value] := by
  induction postings with
  | nil => exact .inr ⟨fun _ hother => absurd hother List.not_mem_nil, rfl⟩
  | cons posting postings ih =>
    obtain ⟨other, ids⟩ := posting
    rw [add]
    by_cases hsame : other.same value
    · rw [if_pos hsame]
      exact .inl rfl
    · rw [if_neg hsame]
      obtain hkept | ⟨hnew, hopened⟩ := ih
      · exact .inl (congrArg (other :: ·) hkept)
      · refine .inr ⟨?_, congrArg (other :: ·) hopened⟩
        intro found hfound
        obtain rfl | hmem := List.mem_cons.mp hfound
        · exact Bool.eq_false_iff.mpr hsame
        · exact hnew found hmem

theorem Distinct.remove {postings : Postings} (h : postings.Distinct) (value : Value)
    (id : RunId) : (postings.remove value id).Distinct := by
  rw [Distinct, values_remove]
  exact h

theorem Distinct.add {postings : Postings} (h : postings.Distinct) (value : Value) (id : RunId) :
    (postings.add value id).Distinct := by
  obtain hkept | ⟨hnew, hopened⟩ := values_add value id postings
  · rw [Distinct, hkept]
    exact h
  · rw [Distinct, hopened]
    refine List.pairwise_append.mpr ⟨h, List.pairwise_singleton _ _, ?_⟩
    intro other hother last hlast
    rw [List.mem_singleton.mp hlast]
    exact hnew other hother

end Postings

namespace Store

/-! ## The shape of the index -/

/-- Only keys that can be searched have entries, and under each of them a value has one. -/
structure Tidy (index : SortedMap String Postings) : Prop where
  searchable (key : String) (postings : Postings) (h : index.get? key = some postings) :
    Key.isSearchable key = true
  distinct (key : String) (postings : Postings) (h : index.get? key = some postings) :
    postings.Distinct

variable {index : SortedMap String Postings} {store : Store}

theorem tidy_empty : Tidy SortedMap.empty where
  searchable _ _ h := nomatch h
  distinct _ _ h := nomatch h

theorem Tidy.insert (h : Tidy index) {key : String} {postings : Postings}
    (hkey : Key.isSearchable key = true) (hpostings : postings.Distinct) :
    Tidy (index.insert key postings) := by
  constructor
  · intro other found hfound
    rw [SortedMap.get?_insert] at hfound
    split at hfound
    · next hother => exact hother ▸ hkey
    · exact h.searchable other found hfound
  · intro other found hfound
    rw [SortedMap.get?_insert] at hfound
    split at hfound
    · exact Option.some_inj.mp hfound ▸ hpostings
    · exact h.distinct other found hfound

theorem Tidy.unindexField (h : Tidy index) (id : RunId) (field : String × Value) :
    Tidy (unindexField id index field) := by
  unfold Store.unindexField
  cases hget : index.get? field.1 with
  | none => exact h
  | some postings =>
    have hdistinct := (h.distinct field.1 postings hget).remove field.2 id
    exact h.insert (h.searchable field.1 postings hget) hdistinct

theorem Tidy.indexField (h : Tidy index) (id : RunId) (key : String) (value : Value) :
    Tidy (indexField id index key value) := by
  unfold Store.indexField
  split
  · next hkey =>
    refine h.insert hkey (Postings.Distinct.add ?_ value id)
    cases hget : index.get? key with
    | none => exact .nil
    | some postings => exact h.distinct key postings hget
  · exact h

theorem Tidy.unindex (h : Tidy index) (id : RunId) (document : Document) :
    Tidy (unindex id document index) := by
  have hfold : Store.unindex id document index =
      document.entries.foldl (Store.unindexField id) index := rfl
  rw [hfold]
  clear hfold
  generalize document.entries = fields
  induction fields generalizing index with
  | nil => exact h
  | cons field fields ih => exact ih (h.unindexField id field)

theorem Tidy.indexDocument (h : Tidy index) (id : RunId) (document : Document) :
    Tidy (indexDocument id document index) := by
  unfold Store.indexDocument
  generalize document.entries = fields
  induction fields generalizing index with
  | nil => exact h
  | cons field fields ih => exact ih (h.indexField id field.1 field.2)

theorem tidy_insert (h : Tidy store.index) (id : RunId) (document : Document) :
    Tidy (store.insert id document).index := by
  unfold Store.insert
  dsimp only
  cases store.get? id with
  | none => exact h.indexDocument id document
  | some old => exact (h.unindex id old).indexDocument id document

theorem tidy_of_load {path : Path} {disk : Disk} (hload : load path disk = .ok store) :
    Tidy store.index := by
  obtain ⟨header, runs, fields, -, -, rfl, -⟩ := exists_ofParts_of_load hload
  have hinserted : ∀ (runs : List (RunId × Document)) {store : Store}, Tidy store.index →
      Tidy (runs.foldl (fun store run => store.insert run.1 run.2) store).index := by
    intro runs
    induction runs with
    | nil => exact id
    | cons run runs ih => exact fun h => ih (tidy_insert h run.1 run.2)
  exact hinserted (SortedMap.ofList runs).entries tidy_empty

/-! ## Sessions -/

/-- What a session does to its store. -/
inductive Change where
  /-- A document is inserted, perhaps in the place of another one. -/
  | insert (id : RunId) (document : Document)
  /-- The store is cleared. -/
  | clear (now : Timestamp)
  /-- A snapshot is loaded, whatever wrote it. -/
  | load (path : Path) (disk : Disk)

/-- The store after a change.  A snapshot that cannot be loaded gives no store, and the session
goes on with the one that it has. -/
def Change.apply (store : Store) : Change → Store
  | insert id document => store.insert id document
  | clear now => store.clear now
  | load path disk => (Store.load path disk).toOption.getD store

/-- The runs whose documents have a value at a key that equals the given one. -/
def runsWith (store : Store) (key : String) (value : Value) : RunSet :=
  RunSet.ofList ((store.runs.entries.filter fun run =>
    (run.2.get? key).any fun field => field.same value).map Prod.fst)

/-- The index has for each searchable key and value the runs that have it, in one entry, and no
entries for other keys. -/
structure ExactIndex (store : Store) : Prop where
  runs (key : String) (hkey : Key.isSearchable key = true) (value : Value) :
    posted store.index key value = store.runsWith key value
  distinct (key : String) (postings : Postings) (h : store.index.get? key = some postings) :
    postings.Distinct
  unsearchable (key : String) (hkey : Key.isSearchable key = false) : store.index.get? key = none

theorem mem_runsWith {key : String} {value : Value} {id : RunId} :
    id ∈ (store.runsWith key value).keys ↔ ∃ document field, store.get? id = some document ∧
      document.get? key = some field ∧ field.same value = true := by
  rw [runsWith, RunSet.mem_keys_ofList, List.mem_map]
  constructor
  · rintro ⟨⟨found, document⟩, hrun, rfl⟩
    obtain ⟨hmem, hany⟩ := List.mem_filter.mp hrun
    cases hfield : document.get? key with
    | none => simp [hfield] at hany
    | some field =>
      simp only [hfield, Option.any_some] at hany
      exact ⟨document, field, SortedMap.get?_eq_some_iff.mpr hmem, hfield, hany⟩
  · rintro ⟨document, field, hget, hfield, hsame⟩
    refine ⟨(id, document), List.mem_filter.mpr ⟨SortedMap.get?_eq_some_iff.mp hget, ?_⟩, rfl⟩
    simp [hfield, hsame]

theorem exactIndex_of_indexed (h : store.Indexed) (htidy : Tidy store.index) :
    store.ExactIndex where
  runs key hkey value := by
    apply RunSet.eq_of_mem_iff
    intro id
    rw [h key value id, mem_runsWith]
    exact and_iff_right hkey
  distinct := htidy.distinct
  unsearchable key hkey := by
    cases hget : store.index.get? key with
    | none => rfl
    | some postings => exact absurd (htidy.searchable key postings hget) (by simp [hkey])

/-- One change keeps the index as it should be. -/
theorem indexed_apply (h : store.Indexed ∧ Tidy store.index) (change : Change) :
    (change.apply store).Indexed ∧ Tidy (change.apply store).index := by
  cases change with
  | insert id document => exact ⟨indexed_insert h.1 id document, tidy_insert h.2 id document⟩
  | clear now => exact ⟨indexed_empty _ now, tidy_empty⟩
  | load path disk =>
    show ((Store.load path disk).toOption.getD store).Indexed ∧
      Tidy ((Store.load path disk).toOption.getD store).index
    cases hload : Store.load path disk with
    | error error => exact h
    | ok loaded => exact ⟨indexed_of_load hload, tidy_of_load hload⟩

/-- **After any session the index is exact**: no run is missing, and none is left of a document
that has been replaced or cleared. -/
theorem exact_of_changes (changes : List Change) (source : Path) (now : Timestamp) :
    (changes.foldl Change.apply (empty source now)).ExactIndex := by
  suffices hkept : ∀ store : Store, store.Indexed ∧ Tidy store.index →
      (changes.foldl Change.apply store).Indexed ∧
        Tidy (changes.foldl Change.apply store).index by
    obtain ⟨hindexed, htidy⟩ := hkept (empty source now) ⟨indexed_empty source now, tidy_empty⟩
    exact exactIndex_of_indexed hindexed htidy
  induction changes with
  | nil => exact fun _ h => h
  | cons change changes ih => exact fun store h => ih (change.apply store) (indexed_apply h change)

/-- A document with other keys leaves nothing of the one in whose place it is inserted, not even
in the entry of a number that another run has as a double. -/
theorem exact_of_replacement :
    let rate : Document := SortedMap.ofList [("config.lr", .int 1), ("config.note", .str "first")]
    let changes : List Change := [.insert 1 rate,
      .insert 2 (SortedMap.ofList [("config.lr", .float 1)]),
      .insert 1 (SortedMap.ofList [("config.seed", .int 7)])]
    let before := (changes.take 2).foldl Change.apply (empty ⟨"/runs"⟩ .epoch)
    let after := changes.foldl Change.apply (empty ⟨"/runs"⟩ .epoch)
    after.ExactIndex ∧
      (posted before.index "config.lr" (.int 1)).keys = [1, 2] ∧
      (posted after.index "config.lr" (.int 1)).keys = [2] ∧
      (posted after.index "config.note" (.str "first")).keys = [] ∧
      (posted after.index "config.seed" (.float 7)).keys = [1] :=
  ⟨exact_of_changes _ ⟨"/runs"⟩ .epoch, by decide +kernel, by decide +kernel, by decide +kernel,
    by decide +kernel⟩

end Store

end Logbook
