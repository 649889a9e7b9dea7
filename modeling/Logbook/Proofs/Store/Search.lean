import Logbook.Proofs.Store.Index
import Logbook.Store.Snapshot

/-!
# Searching with the index and without

A search looks only at the candidates that the index gives for a predicate.  Here it is
shown to find what a look at every document would find:

* `mem_candidates`: in an exactly indexed store every run that satisfies a predicate is
  among its candidates, by induction on the predicate;
* `indexed_of_reachable`: every store that a session can come to is exactly indexed,
  because a new one is and each operation keeps it so;
* `search_eq_scan`: the search of such a store is the scan of all its documents.
-/

namespace Logbook

namespace Store

/-! ## Candidates -/

/-- The runs that the index has for a key are those posted under one of the values. -/
theorem mem_lookup {store : Store} {key : String} {values : List Value} {ids : RunSet}
    (hlookup : store.lookup? key values = some ids) (id : RunId) :
    id ∈ ids.keys ↔ ∃ value ∈ values, id ∈ (posted store.index key value).keys := by
  unfold lookup? at hlookup
  split at hlookup
  · rw [← Option.some_inj.mp hlookup, RunSet.mem_keys_ofList, List.mem_flatMap]
    rfl
  · contradiction

theorem isSearchable_of_lookup {store : Store} {key : String} {values : List Value} {ids : RunSet}
    (hlookup : store.lookup? key values = some ids) : Key.isSearchable key = true := by
  unfold lookup? at hlookup
  split at hlookup
  · assumption
  · contradiction

/-- A run is among the candidates for values of a key if its field is one of them. -/
theorem mem_lookup_of_same {store : Store} (hindexed : store.Indexed) {key : String}
    {values : List Value} {ids : RunSet} (hlookup : store.lookup? key values = some ids)
    {id : RunId} {document : Document} {field value : Value} (hget : store.get? id = some document)
    (hfield : document.get? key = some field) (hvalue : value ∈ values)
    (hsame : field.same value = true) : id ∈ ids.keys := by
  refine (mem_lookup hlookup id).mpr ⟨value, hvalue, ?_⟩
  exact (hindexed key value id).mpr
    ⟨isSearchable_of_lookup hlookup, document, field, hget, hfield, hsame⟩

/-- **No run that satisfies a predicate is missed.** -/
theorem mem_candidates {store : Store} (hindexed : store.Indexed) {predicate : Predicate}
    {ids : RunSet} (hids : store.candidates? predicate = some ids) {id : RunId}
    {document : Document} (hget : store.get? id = some document)
    (hholds : predicate.holds document = true) : id ∈ ids.keys := by
  induction predicate generalizing ids with
  | compare key comparison literal =>
    cases comparison with
    | equal =>
      cases hfield : document.get? key with
      | none => simp [Predicate.holds, hfield] at hholds
      | some field =>
        have hsame : field.same literal = true := by
          simpa [Predicate.holds, hfield, Comparison.holds] using hholds
        exact mem_lookup_of_same hindexed hids hget hfield (by simp) hsame
    | _ => simp [candidates?] at hids
  | oneOf key literals =>
    cases hfield : document.get? key with
    | none => simp [Predicate.holds, hfield] at hholds
    | some field =>
      obtain ⟨literal, hliteral, hsame⟩ : ∃ literal ∈ literals, literal.same field = true := by
        simpa [Predicate.holds, hfield] using hholds
      exact mem_lookup_of_same hindexed hids hget hfield hliteral (Value.same_symm hsame)
  | and left right ihleft ihright =>
    obtain ⟨hleft, hright⟩ : left.holds document = true ∧ right.holds document = true := by
      simpa [Predicate.holds] using hholds
    -- One side without candidates leaves those of the other.
    unfold candidates? at hids
    split at hids
    · next leftIds rightIds hleftIds hrightIds =>
      rw [← Option.some_inj.mp hids, RunSet.mem_keys_intersection]
      exact ⟨ihleft hleftIds hleft, ihright hrightIds hright⟩
    · next hleftIds _ => exact ihleft (hids ▸ hleftIds) hleft
    · next _ hrightIds => exact ihright (hids ▸ hrightIds) hright
    · contradiction
  | or left right ihleft ihright =>
    unfold candidates? at hids
    split at hids
    · next leftIds rightIds hleftIds hrightIds =>
      rw [← Option.some_inj.mp hids, RunSet.mem_keys_union]
      obtain hleft | hright : left.holds document = true ∨ right.holds document = true := by
        simpa [Predicate.holds] using hholds
      · exact Or.inl (ihleft hleftIds hleft)
      · exact Or.inr (ihright hrightIds hright)
    · contradiction
  | not inner => simp [candidates?] at hids

/-! ## The search of an exactly indexed store -/

theorem mem_search_of_indexed {store : Store} (hindexed : store.Indexed) (predicate : Predicate)
    (id : RunId) (document : Document) :
    (id, document) ∈ store.search predicate ↔
      store.get? id = some document ∧ predicate.holds document = true := by
  unfold search
  rw [List.mem_filter]
  refine and_congr_left fun hholds => ?_
  cases hids : store.candidates? predicate with
  | none => exact SortedMap.get?_eq_some_iff.symm
  | some ids =>
    have hcandidate : store.get? id = some document → id ∈ ids.keys :=
      fun hget => mem_candidates hindexed hids hget hholds
    simp only [List.mem_filterMap, Option.map_eq_some_iff, Prod.mk.injEq]
    grind

/-- The runs found stand in the order of their numbers, each once. -/
theorem pairwise_search (store : Store) (predicate : Predicate) :
    (store.search predicate).Pairwise fun left right => left.1 < right.1 := by
  unfold search
  refine List.Pairwise.filter _ ?_
  cases store.candidates? predicate with
  | none => exact store.runs.sorted
  | some ids =>
    refine List.pairwise_filterMap.mpr (ids.pairwise_keys.imp ?_)
    intro left right hlt leftRun hleft rightRun hright
    obtain ⟨_, _, rfl⟩ := Option.map_eq_some_iff.mp hleft
    obtain ⟨_, _, rfl⟩ := Option.map_eq_some_iff.mp hright
    exact hlt

theorem search_of_indexed {store : Store} (hindexed : store.Indexed) (predicate : Predicate) :
    store.search predicate = store.runs.entries.filter fun run => predicate.holds run.2 := by
  refine SortedMap.eq_of_sorted (pairwise_search store predicate) (store.runs.sorted.filter _) ?_
  rintro ⟨id, document⟩
  rw [mem_search_of_indexed hindexed, List.mem_filter, ← SortedMap.get?_eq_some_iff]
  rfl

/-! ## Stores of a session -/

/-- The stores that a session can come to: a new one, and what insertions, clearing and
saving and loading again make of one. -/
inductive Reachable : Store → Prop
  | empty (source : Path) (now : Timestamp) : Reachable (Store.empty source now)
  | insert {store : Store} (h : Reachable store) (id : RunId) (document : Document) :
      Reachable (store.insert id document)
  | clear {store : Store} (h : Reachable store) (now : Timestamp) : Reachable (store.clear now)
  | reload {store loaded : Store} (h : Reachable store) {path : Path} {disk written : Disk}
      (hsave : store.save path disk = .ok written) (hload : load path written = .ok loaded) :
      Reachable loaded

theorem indexed_foldl_insert (runs : List (RunId × Document)) {store : Store}
    (h : store.Indexed) :
    (runs.foldl (fun store run => store.insert run.1 run.2) store).Indexed := by
  induction runs generalizing store with
  | nil => exact h
  | cons run runs ih => exact ih (indexed_insert h run.1 run.2)

/-- A store that is loaded has been put together from parts that were read. -/
theorem exists_ofParts_of_load {path : Path} {disk : Disk} {store : Store}
    (hload : load path disk = .ok store) :
    ∃ header runs fields runDrafts fieldDrafts, store = ofParts header runs fields ∧
      List.mapM run? runDrafts = some runs ∧ List.mapM field? fieldDrafts = some fields := by
  unfold load at hload
  split at hload
  · contradiction
  · next text _ =>
    cases htext : ofText? text with
    | none => simp [htext] at hload
    | some read =>
      obtain rfl : read = store := by simpa [htext] using hload
      obtain ⟨draft, -, hdraft⟩ := Option.bind_eq_some_iff.mp htext
      simp only [ofDraft?, Option.bind_eq_bind, Option.bind_eq_some_iff] at hdraft
      obtain ⟨parts, -, hparts⟩ := hdraft
      split at hparts
      · next headerDraft runDrafts fieldDrafts =>
        simp only [Option.bind_eq_some_iff, Option.pure_def, Option.some_inj] at hparts
        obtain ⟨header, -, runs, hruns, fields, hfields, rfl⟩ := hparts
        exact ⟨header, runs, fields, runDrafts, fieldDrafts, rfl, hruns, hfields⟩
      · contradiction

/-- Any store that a snapshot gives is exactly indexed, whoever wrote the snapshot. -/
theorem indexed_of_load {path : Path} {disk : Disk} {store : Store}
    (hload : load path disk = .ok store) : store.Indexed := by
  obtain ⟨header, runs, fields, -, -, rfl, -⟩ := exists_ofParts_of_load hload
  -- The field table laid over the store is no part of the index.
  exact indexed_foldl_insert _ (indexed_empty header.source header.createdAt)

/-- Every operation of a session keeps the index exact. -/
theorem indexed_of_reachable {store : Store} (h : Reachable store) : store.Indexed := by
  induction h with
  | empty source now => exact indexed_empty source now
  | insert _ id document ih => exact indexed_insert ih id document
  | clear _ now => exact indexed_empty _ now
  | reload _ _ hload => exact indexed_of_load hload

/-- **A search finds exactly the runs that satisfy the predicate**, each once and in the
order of their numbers, as the scan of all documents does. -/
theorem search_eq_scan {store : Store} (h : Reachable store) (predicate : Predicate) :
    store.search predicate = (store.runs.entries.filter fun run => predicate.holds run.2) ∧
      (store.search predicate).Pairwise (fun left right => left.1 < right.1) ∧
      ∀ id document, (id, document) ∈ store.search predicate ↔
        store.get? id = some document ∧ predicate.holds document = true :=
  ⟨search_of_indexed (indexed_of_reachable h) predicate, pairwise_search store predicate,
    mem_search_of_indexed (indexed_of_reachable h) predicate⟩

/-- Run 1 is no longer found once its document has been replaced, and run 2 is found
under the double that equals its integer. -/
theorem search_after_replacement :
    let store := (((Store.empty ⟨"/runs"⟩ .epoch).insert 1
      (SortedMap.ofList [("config.seed", .int 1)])).insert 2
      (SortedMap.ofList [("config.seed", .int 1)])).insert 1
      (SortedMap.ofList [("config.seed", .null)])
    let predicate := (Predicate.oneOf "config.seed" [.float (.ofInt 1)]).and
      (.not (.compare "info.status" .equal (.str "RUNNING")))
    Reachable store ∧ (store.search predicate).map Prod.fst = [2] ∧
      store.search predicate = store.runs.entries.filter fun run => predicate.holds run.2 := by
  intro store predicate
  have hreachable : Reachable store :=
    (((Reachable.empty ⟨"/runs"⟩ .epoch).insert 1 _).insert 2 _).insert 1 _
  refine ⟨hreachable, ?_, (search_eq_scan hreachable predicate).1⟩
  show (store.search predicate).map Prod.fst = [2]
  decide +kernel

end Store

end Logbook
