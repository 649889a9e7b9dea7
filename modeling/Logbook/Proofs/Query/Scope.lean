import Logbook.Proofs.Key
import Logbook.Proofs.Query.Token
import Logbook.Proofs.Store.Search

/-!
# What a query can see

Metrics and artifacts are loaded on demand, so nothing that a query says may depend on them.
`Query.search_blind` says that nothing does: an accepted query refers to metadata only, and
finds the same runs in two stores that have the same metadata, whatever else they hold.

## Strategy

* The parser lets no key through that is not one of metadata (`Query.isMetadata_of_parse`).
* Whether a document satisfies a predicate depends on its values at the keys of the predicate
  alone (`Predicate.holds_congr`), by induction on the predicate.
* A search with the index is a scan of all documents (`Store.mem_search_of_indexed`), so what
  the index holds for one store and not for the other does not enter.
-/

namespace Logbook

/-- A key below one of the two groups of metadata. -/
def Key.IsMetadata (key : String) : Prop := ∃ rest, key = "config." ++ rest ∨ key = "info." ++ rest

/-- The keys that can be searched are those of metadata. -/
theorem Key.isSearchable_iff {key : String} : isSearchable key = true ↔ IsMetadata key := by
  simp only [isSearchable, searchableBeginnings, List.any_cons, List.any_nil, Bool.or_false,
    Bool.or_eq_true, startsWith_iff, IsMetadata, exists_or, or_comm]

/-- What a predicate says of a document depends on the fields that it refers to. -/
theorem Predicate.holds_congr {predicate : Predicate} {left right : Document}
    (h : ∀ key ∈ predicate.keys, left.get? key = right.get? key) :
    predicate.holds left = predicate.holds right := by
  simp only [keys, List.mem_eraseDups] at h
  induction predicate with
  | compare key comparison literal => rw [holds, holds, h key (by simp [atomKeys])]
  | oneOf key literals => rw [holds, holds, h key (by simp [atomKeys])]
  | and first second ihfirst ihsecond =>
    rw [holds, holds, ihfirst fun key hkey => h key (by simp [atomKeys, hkey]),
      ihsecond fun key hkey => h key (by simp [atomKeys, hkey])]
  | or first second ihfirst ihsecond =>
    rw [holds, holds, ihfirst fun key hkey => h key (by simp [atomKeys, hkey]),
      ihsecond fun key hkey => h key (by simp [atomKeys, hkey])]
  | not inner ih => rw [holds, holds, ih h]

namespace Store

/-- Two stores have the same runs with the same metadata.  Other fields may differ. -/
structure SameMetadata (left right : Store) : Prop where
  ids : left.runs.keys = right.runs.keys
  documents (id : RunId) (first second : Document) (hfirst : left.get? id = some first)
    (hsecond : right.get? id = some second) (key : String) (hkey : Key.IsMetadata key) :
    first.get? key = second.get? key

variable {left right : Store} {predicate : Predicate} {id : RunId}

theorem SameMetadata.symm (h : left.SameMetadata right) : right.SameMetadata left where
  ids := h.ids.symm
  documents id first second hfirst hsecond key hkey :=
    (h.documents id second first hsecond hfirst key hkey).symm

/-- The other store has a document for every run, and no predicate over metadata tells the two
documents apart. -/
theorem SameMetadata.exists_get? (h : left.SameMetadata right)
    (hkeys : ∀ key ∈ predicate.keys, Key.IsMetadata key) {document : Document}
    (hget : left.get? id = some document) :
    ∃ other, right.get? id = some other ∧ predicate.holds other = predicate.holds document := by
  have hid : id ∈ left.runs.keys :=
    SortedMap.mem_keys.mpr ⟨document, SortedMap.mem_of_get? hget⟩
  rw [h.ids, ← SortedMap.contains_iff, SortedMap.contains] at hid
  obtain ⟨other, hother⟩ := Option.isSome_iff_exists.mp hid
  refine ⟨other, hother, Predicate.holds_congr fun key hkey => ?_⟩
  exact (h.documents id document other hget hother key (hkeys key hkey)).symm

/-- A run that is found in one store is found in the other. -/
theorem SameMetadata.mem_search (h : left.SameMetadata right) (hleft : left.Indexed)
    (hright : right.Indexed) (hkeys : ∀ key ∈ predicate.keys, Key.IsMetadata key)
    (hid : id ∈ (left.search predicate).map Prod.fst) :
    id ∈ (right.search predicate).map Prod.fst := by
  obtain ⟨⟨found, document⟩, hfound, rfl⟩ := List.mem_map.mp hid
  obtain ⟨hget, hholds⟩ := (mem_search_of_indexed hleft predicate _ _).mp hfound
  obtain ⟨other, hother, hsame⟩ := h.exists_get? hkeys hget
  refine List.mem_map.mpr ⟨(found, other), ?_, rfl⟩
  exact (mem_search_of_indexed hright predicate found other).mpr ⟨hother, hsame.trans hholds⟩

theorem SameMetadata.search_eq (h : left.SameMetadata right) (hleft : left.Indexed)
    (hright : right.Indexed) (hkeys : ∀ key ∈ predicate.keys, Key.IsMetadata key) :
    (left.search predicate).map Prod.fst = (right.search predicate).map Prod.fst := by
  -- Both lists of numbers ascend, so it is enough that they have the same members.
  have hsorted : ∀ store : Store,
      ((store.search predicate).map Prod.fst).Pairwise fun first second => first < second :=
    fun store => List.pairwise_map.mpr (pairwise_search store predicate)
  refine List.Perm.eq_of_pairwise (fun first second _ _ hlt hgt => ?_) (hsorted left)
    (hsorted right) ((List.perm_ext_iff_of_nodup ?_ ?_).mpr fun id => ⟨?_, ?_⟩)
  · exact absurd (Std.lt_trans hlt hgt) Std.lt_irrefl
  · exact (hsorted left).imp fun hlt heq => absurd (heq ▸ hlt) Std.lt_irrefl
  · exact (hsorted right).imp fun hlt heq => absurd (heq ▸ hlt) Std.lt_irrefl
  · exact h.mem_search hleft hright hkeys
  · exact h.symm.mem_search hright hleft hkeys

end Store

namespace Query

/-- An accepted query refers to metadata only. -/
theorem isMetadata_of_parse {query : String} {predicate : Predicate}
    (hparse : parse query = .ok predicate) : ∀ key ∈ predicate.keys, Key.IsMetadata key := by
  obtain ⟨kinds, -, hsentence, hsearchable⟩ := parse_eq_ok_iff.mp hparse
  intro key hkey
  rw [Predicate.keys, List.mem_eraseDups] at hkey
  exact Key.isSearchable_iff.mp (hsearchable key ((key_mem_of_derives hsentence key).mpr hkey))

/-- **An accepted query is blind to everything but metadata.**  All its keys are keys of
metadata, and in two stores with the same runs and the same metadata it finds the same runs. -/
theorem search_blind {query : String} {predicate : Predicate}
    (hparse : parse query = .ok predicate) :
    (∀ key ∈ predicate.keys, Key.IsMetadata key) ∧
      ∀ left right : Store, left.Reachable → right.Reachable → left.SameMetadata right →
        (left.search predicate).map Prod.fst = (right.search predicate).map Prod.fst := by
  refine ⟨isMetadata_of_parse hparse, fun left right hleft hright hsame => ?_⟩
  exact hsame.search_eq (Store.indexed_of_reachable hleft) (Store.indexed_of_reachable hright)
    (isMetadata_of_parse hparse)

/-- One store has a metric where the other has an artifact and a stored value, and its first
run has been replaced.  Both answer the query with the second run. -/
theorem search_blind_of_other_fields :
    let left := (((Store.empty ⟨"/runs"⟩ .epoch).insert 1
      (SortedMap.ofList [("config.seed", .int 2)])).insert 2
      (SortedMap.ofList [("config.seed", .int 2), ("train.loss", Marker.metric.value)])).insert 1
      (SortedMap.ofList [("config.seed", .int 1)])
    let right := ((Store.empty ⟨"/other"⟩ .epoch).insert 2
      (SortedMap.ofList [("artifact.text.", Marker.artifact.value), ("config.seed", .int 2),
        ("train.loss", .null)])).insert 1
      (SortedMap.ofList [("config.seed", .int 1), ("test.loss", Marker.metric.value)])
    ∃ predicate, parse "config.seed == 2 & ~info.status == 'RUNNING'" = .ok predicate ∧
      left.Reachable ∧ right.Reachable ∧ left.SameMetadata right ∧
      (left.search predicate).map Prod.fst = [2] ∧
      (left.search predicate).map Prod.fst = (right.search predicate).map Prod.fst := by
  intro left right
  have hparse : parse "config.seed == 2 & ~info.status == 'RUNNING'" = .ok
      (.and (.compare "config.seed" .equal (.int 2))
        (.not (.compare "info.status" .equal (.str "RUNNING")))) := by rfl
  have hleft : left.Reachable :=
    (((Store.Reachable.empty ⟨"/runs"⟩ .epoch).insert 1 _).insert 2 _).insert 1 _
  have hright : right.Reachable :=
    ((Store.Reachable.empty ⟨"/other"⟩ .epoch).insert 2 _).insert 1 _
  have hother : ∀ name, Key.isSearchable name = false → ∀ key, Key.IsMetadata key → name ≠ key := by
    rintro name hname key hkey rfl
    rw [Key.isSearchable_iff.mpr hkey] at hname
    cases hname
  have hsame : left.SameMetadata right := by
    refine ⟨by decide +kernel, fun id first second hfirst hsecond key hkey => ?_⟩
    have hloss := hother "train.loss" (by decide +kernel) key hkey
    have htest := hother "test.loss" (by decide +kernel) key hkey
    have htext := hother "artifact.text." (by decide +kernel) key hkey
    simp only [left, Store.get?_insert] at hfirst
    simp only [right, Store.get?_insert] at hsecond
    by_cases hone : id = 1
    · rw [if_pos hone] at hfirst hsecond
      cases hfirst
      cases hsecond
      simp [SortedMap.get?_ofList, htest]
    · rw [if_neg hone] at hfirst hsecond
      by_cases htwo : id = 2
      · rw [if_pos htwo] at hfirst hsecond
        cases hfirst
        cases hsecond
        by_cases hseed : "config.seed" = key <;>
          simp [SortedMap.get?_ofList, hseed, hloss, htext]
      · rw [if_neg htwo, if_neg hone] at hfirst
        cases hfirst
  exact ⟨_, hparse, hleft, hright, hsame, by decide +kernel,
    (search_blind hparse).2 left right hleft hright hsame⟩

end Query

end Logbook
