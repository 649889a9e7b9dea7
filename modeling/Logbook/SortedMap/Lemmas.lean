import Logbook.SortedMap.Basic

/-!
# Looking keys up in sorted maps

What each operation on a sorted map does to `get?`, through which maps are reasoned
about from here on: a map is determined by the values of its keys, an insertion
changes the value of one key, and of a list of entries the last with a key counts.
-/

namespace Logbook

universe u v w

namespace SortedMap

variable {κ : Type u} {α : Type v} {β : Type w} [LT κ]

/-! ## Entries and keys -/

@[ext] theorem ext {left right : SortedMap κ α} (hentries : left.entries = right.entries) :
    left = right := by
  cases left
  cases right
  simpa using hentries

@[simp] theorem entries_filter (keep : κ → α → Bool) (map : SortedMap κ α) :
    (map.filter keep).entries = map.entries.filter fun entry => keep entry.1 entry.2 := rfl

@[simp] theorem entries_mapValues (transform : κ → α → β) (map : SortedMap κ α) :
    (map.mapValues transform).entries =
      map.entries.map fun entry => (entry.1, transform entry.1 entry.2) := rfl

@[simp] theorem keys_empty : (empty : SortedMap κ α).keys = [] := rfl

theorem mem_keys {map : SortedMap κ α} {key : κ} :
    key ∈ map.keys ↔ ∃ value, (key, value) ∈ map.entries := by
  simp [keys]

/-- The keys of a map ascend. -/
theorem pairwise_keys (map : SortedMap κ α) : map.keys.Pairwise (· < ·) :=
  List.pairwise_map.mpr map.sorted

section Order

variable [LE κ] [Std.LawfulOrderLT κ]

/-- No key of a map occurs twice. -/
theorem nodup_keys (map : SortedMap κ α) : map.keys.Nodup :=
  map.pairwise_keys.imp fun {left right} (hlt : left < right) (heq : left = right) =>
    absurd (heq ▸ hlt : right < right) Std.lt_irrefl

/-- A key has one value. -/
theorem eq_of_mem_entries {map : SortedMap κ α} {key : κ} {value other : α}
    (hvalue : (key, value) ∈ map.entries) (hother : (key, other) ∈ map.entries) :
    value = other := by
  have hunique : ∀ entries : List (κ × α), (entries.Pairwise fun left right => left.1 < right.1) →
      (key, value) ∈ entries → (key, other) ∈ entries → value = other := by
    intro entries hsorted
    induction hsorted with
    | nil => simp
    | @cons head rest hhead _ ih =>
      intro hvalue hother
      rcases List.mem_cons.mp hvalue with rfl | hvalue <;>
        rcases List.mem_cons.mp hother with h | hother
      · exact (Prod.mk.inj h).2.symm
      · exact absurd (hhead _ hother) Std.lt_irrefl
      · exact absurd (h ▸ hhead _ hvalue) Std.lt_irrefl
      · exact ih hvalue hother
  exact hunique map.entries map.sorted hvalue hother

/-- Putting an entry into a sorted list takes the place of those with its key. -/
theorem mem_insertEntry_iff [Std.IsLinearOrder κ] [DecidableLT κ] {key : κ} {value : α}
    {entries : List (κ × α)} (hsorted : entries.Pairwise fun left right => left.1 < right.1)
    {entry : κ × α} :
    entry ∈ insertEntry key value entries ↔
      entry = (key, value) ∨ entry.1 ≠ key ∧ entry ∈ entries := by
  induction entries with
  | nil => simp [insertEntry]
  | cons head rest ih =>
    obtain ⟨hhead, hrest⟩ := List.pairwise_cons.mp hsorted
    have hafter : ¬ head.1 < key → ∀ other ∈ rest, other.1 ≠ key := fun hnot other hmem heq =>
      hnot (heq ▸ hhead other hmem)
    unfold insertEntry
    split
    · next hlt =>
      have hne : head.1 ≠ key := fun heq => Std.lt_irrefl (heq ▸ hlt)
      have hnot : ¬ head.1 < key := Std.not_lt.mpr (Std.le_of_lt hlt)
      have hother := hafter hnot
      simp only [List.mem_cons]
      grind
    · next hnot =>
      split
      · next hlt =>
        have hne : head.1 ≠ key := fun heq => Std.lt_irrefl (heq ▸ hlt)
        simp only [List.mem_cons, ih hrest]
        grind
      · next hnot' =>
        have hother := hafter hnot'
        have hsame : head.1 = key := by
          rcases Std.lt_trichotomy head.1 key with h | h | h
          · exact absurd h hnot'
          · exact h
          · exact absurd h hnot
        simp only [List.mem_cons]
        grind

/-- Two sorted lists with the same entries are one. -/
theorem eq_of_sorted [Std.IsLinearOrder κ] {left right : List (κ × α)}
    (hleft : left.Pairwise fun first second => first.1 < second.1)
    (hright : right.Pairwise fun first second => first.1 < second.1)
    (hmem : ∀ entry, entry ∈ left ↔ entry ∈ right) : left = right := by
  induction hleft generalizing right with
  | nil =>
    refine (List.eq_nil_iff_forall_not_mem.mpr fun entry hin => ?_).symm
    simpa using (hmem entry).mpr hin
  | @cons head rest hhead hrest ih =>
    cases hright with
    | nil => exact absurd ((hmem head).mp (by simp)) (by simp)
    | @cons other others hother hothers =>
      have hirrefl : ∀ key : κ, ¬ key < key := fun key => Std.lt_irrefl
      have hsame : head = other := by
        rcases List.mem_cons.mp ((hmem head).mp (by simp)) with heq | hin
        · exact heq
        · rcases List.mem_cons.mp ((hmem other).mpr (by simp)) with heq | hin'
          · exact heq.symm
          · exact absurd (Std.lt_trans (hhead other hin') (hother head hin)) (hirrefl _)
      subst hsame
      refine congrArg (head :: ·) (ih hothers fun entry => ?_)
      have hiff := hmem entry
      simp only [List.mem_cons] at hiff
      refine ⟨fun hin => ?_, fun hin => ?_⟩
      · exact (hiff.mp (.inr hin)).resolve_left fun heq => hirrefl _ (heq ▸ hhead entry hin)
      · exact (hiff.mpr (.inr hin)).resolve_left fun heq => hirrefl _ (heq ▸ hother entry hin)

end Order

/-! ## Values of keys -/

variable [DecidableEq κ]

theorem mem_of_get? {map : SortedMap κ α} {key : κ} {value : α} (hget : map.get? key = some value) :
    (key, value) ∈ map.entries := by
  obtain ⟨entry, hfind, rfl⟩ := Option.map_eq_some_iff.mp hget
  have hkey : entry.1 = key := by simpa using List.find?_some hfind
  exact hkey ▸ List.mem_of_find?_eq_some hfind

theorem get?_eq_none_iff {map : SortedMap κ α} {key : κ} :
    map.get? key = none ↔ key ∉ map.keys := by
  simp only [get?, Option.map_eq_none_iff, List.find?_eq_none, keys, List.mem_map, not_exists,
    not_and, decide_eq_true_eq]

theorem contains_iff {map : SortedMap κ α} {key : κ} : map.contains key ↔ key ∈ map.keys := by
  rw [contains, Option.isSome_iff_ne_none, ne_eq, get?_eq_none_iff, Decidable.not_not]

@[simp] theorem get?_mapValues (transform : κ → α → β) (map : SortedMap κ α) (key : κ) :
    (map.mapValues transform).get? key = (map.get? key).map (transform key) := by
  cases map with
  | mk entries sorted =>
    simp only [get?, entries_mapValues, List.find?_map, Option.map_map]
    clear sorted
    induction entries with
    | nil => rfl
    | cons head rest ih => by_cases hkey : head.1 = key <;> simp_all

variable [LE κ] [Std.LawfulOrderLT κ]

theorem get?_eq_some_iff {map : SortedMap κ α} {key : κ} {value : α} :
    map.get? key = some value ↔ (key, value) ∈ map.entries := by
  refine ⟨mem_of_get?, fun hmem => ?_⟩
  cases hget : map.get? key with
  | none => exact absurd (mem_keys.mpr ⟨value, hmem⟩) (get?_eq_none_iff.mp hget)
  | some other => rw [eq_of_mem_entries hmem (mem_of_get? hget)]

@[simp] theorem get?_filter (keep : κ → α → Bool) (map : SortedMap κ α) (key : κ) :
    (map.filter keep).get? key = (map.get? key).filter (keep key) := by
  ext value
  simp only [get?_eq_some_iff, entries_filter, List.mem_filter, Option.filter_eq_some_iff]

variable [Std.IsLinearOrder κ]

/-- Two maps that give all keys the same values are one. -/
theorem ext_get? {left right : SortedMap κ α} (hget : ∀ key, left.get? key = right.get? key) :
    left = right := by
  have hmem : ∀ key value, (key, value) ∈ left.entries ↔ (key, value) ∈ right.entries :=
    fun key value => by rw [← get?_eq_some_iff, ← get?_eq_some_iff, hget]
  exact ext (eq_of_sorted left.sorted right.sorted fun entry => hmem entry.1 entry.2)

/-- Maps with values at the same keys have the same keys in the same order. -/
theorem keys_congr {left : SortedMap κ α} {right : SortedMap κ β}
    (hnone : ∀ key, left.get? key = none ↔ right.get? key = none) : left.keys = right.keys := by
  have hunits : (left.mapValues fun _ _ => ()) = right.mapValues fun _ _ => () := by
    apply ext_get?
    intro key
    have hkey := hnone key
    rw [get?_mapValues, get?_mapValues]
    cases hleft : left.get? key <;> cases hright : right.get? key <;> simp [hleft, hright] at hkey ⊢
  rw [← keys_mapValues (fun _ _ => ()) left, hunits, keys_mapValues]

variable [DecidableLT κ]

/-- An insertion gives one key a value and leaves the values of the others. -/
theorem get?_insert (map : SortedMap κ α) (key : κ) (value : α) (other : κ) :
    (map.insert key value).get? other = if other = key then some value else map.get? other := by
  ext found
  rw [get?_eq_some_iff, insert, mem_insertEntry_iff map.sorted, ← get?_eq_some_iff]
  split <;> grind

@[simp] theorem get?_insert_self (map : SortedMap κ α) (key : κ) (value : α) :
    (map.insert key value).get? key = some value := by
  simp [get?_insert]

theorem mem_keys_insert {map : SortedMap κ α} {key other : κ} {value : α} :
    other ∈ (map.insert key value).keys ↔ other = key ∨ other ∈ map.keys := by
  simp only [← contains_iff, contains, get?_insert]
  split <;> simp_all

theorem get?_foldl_insert (entries : List (κ × α)) (map : SortedMap κ α) (key : κ) :
    (entries.foldl (fun map entry => map.insert entry.1 entry.2) map).get? key =
      ((entries.reverse.find? fun entry => entry.1 = key).map Prod.snd).or (map.get? key) := by
  induction entries generalizing map with
  | nil => simp
  | cons head rest ih =>
    rw [List.foldl_cons, ih, get?_insert, List.reverse_cons, List.find?_append]
    by_cases hkey : head.1 = key
    · cases rest.reverse.find? fun entry => entry.1 = key <;> simp [hkey]
    · cases rest.reverse.find? fun entry => entry.1 = key <;> simp [hkey, Ne.symm hkey]

theorem mem_keys_foldl_insert {entries : List (κ × α)} {map : SortedMap κ α} {key : κ} :
    key ∈ (entries.foldl (fun map entry => map.insert entry.1 entry.2) map).keys ↔
      (∃ value, (key, value) ∈ entries) ∨ key ∈ map.keys := by
  rw [← contains_iff, ← contains_iff, contains, contains, get?_foldl_insert]
  simp

theorem mem_or_mem_of_foldl_insert {entries : List (κ × α)} {map : SortedMap κ α} {entry : κ × α}
    (h : entry ∈ (entries.foldl (fun map entry => map.insert entry.1 entry.2) map).entries) :
    entry ∈ entries ∨ entry ∈ map.entries := by
  have hget := get?_eq_some_iff.mpr h
  rw [get?_foldl_insert] at hget
  cases hfind : entries.reverse.find? fun other => other.1 = entry.1 with
  | none =>
    rw [hfind] at hget
    exact .inr (mem_of_get? hget)
  | some other =>
    have hkey : other.1 = entry.1 := by simpa using List.find?_some hfind
    rw [hfind] at hget
    have hvalue : other.2 = entry.2 := by simpa using hget
    rw [← Prod.ext hkey hvalue]
    exact .inl (List.mem_reverse.mp (List.mem_of_find?_eq_some hfind))

/-- Of a list of entries the last with a key counts. -/
theorem get?_ofList (entries : List (κ × α)) (key : κ) :
    (ofList entries).get? key =
      (entries.reverse.find? fun entry => entry.1 = key).map Prod.snd := by
  simp [ofList, get?_foldl_insert]

theorem get?_ofList_append (entries more : List (κ × α)) (key : κ) :
    (ofList (entries ++ more)).get? key =
      ((ofList more).get? key).or ((ofList entries).get? key) := by
  rw [ofList, List.foldl_append, get?_foldl_insert, get?_ofList more]
  rfl

/-- A key that has one value in a list of entries has it in the map. -/
theorem get?_ofList_of_mem {entries : List (κ × α)} {key : κ} {value : α}
    (hmem : (key, value) ∈ entries) (hunique : ∀ other, (key, other) ∈ entries → other = value) :
    (ofList entries).get? key = some value := by
  rw [get?_ofList]
  cases hfind : entries.reverse.find? fun entry => entry.1 = key with
  | none => exact absurd (List.find?_eq_none.mp hfind _ (List.mem_reverse.mpr hmem)) (by simp)
  | some entry =>
    have hkey : entry.1 = key := by simpa using List.find?_some hfind
    have hin := List.mem_reverse.mp (List.mem_of_find?_eq_some hfind)
    subst hkey
    exact congrArg some (hunique entry.2 hin)

theorem mem_of_mem_ofList {entries : List (κ × α)} {entry : κ × α}
    (h : entry ∈ (ofList entries).entries) : entry ∈ entries :=
  (mem_or_mem_of_foldl_insert h).resolve_right List.not_mem_nil

theorem mem_of_get?_ofList {entries : List (κ × α)} {key : κ} {value : α}
    (hget : (ofList entries).get? key = some value) : (key, value) ∈ entries :=
  mem_of_mem_ofList (mem_of_get? hget)

theorem mem_keys_ofList {entries : List (κ × α)} {key : κ} :
    key ∈ (ofList entries).keys ↔ ∃ value, (key, value) ∈ entries := by
  rw [← contains_iff, contains, get?_ofList]
  simp

theorem exists_get?_ofList {entries : List (κ × α)} {key : κ} (hkey : key ∈ entries.map Prod.fst) :
    ∃ value, (ofList entries).get? key = some value := by
  obtain ⟨entry, hentry, rfl⟩ := List.mem_map.mp hkey
  exact Option.isSome_iff_exists.mp (contains_iff.mpr (mem_keys_ofList.mpr ⟨entry.2, hentry⟩))

/-- A map is the map of its entries. -/
@[simp] theorem ofList_entries (map : SortedMap κ α) : ofList map.entries = map := by
  refine ext_get? fun key => ?_
  cases hget : map.get? key with
  | none =>
    rw [get?_eq_none_iff, mem_keys_ofList, ← mem_keys]
    exact get?_eq_none_iff.mp hget
  | some value =>
    have hmem := mem_of_get? hget
    exact get?_ofList_of_mem hmem fun other hother => eq_of_mem_entries hother hmem

theorem mapValues_ofList (transform : κ → α → β) (entries : List (κ × α)) :
    (ofList entries).mapValues transform =
      ofList (entries.map fun entry => (entry.1, transform entry.1 entry.2)) := by
  refine ext_get? fun key => ?_
  rw [get?_mapValues, get?_ofList, get?_ofList, ← List.map_reverse, List.find?_map,
    Option.map_map, Option.map_map]
  show _ = (entries.reverse.find? fun entry => entry.1 = key).map _
  cases hfind : entries.reverse.find? fun entry => entry.1 = key with
  | none => rfl
  | some entry =>
    have hkey : entry.1 = key := by simpa using List.find?_some hfind
    subst hkey
    rfl

/-- A map that is laid over one without further keys is what comes out. -/
theorem foldl_insert_entries {map base : SortedMap κ α} (h : ∀ key ∈ base.keys, key ∈ map.keys) :
    map.entries.foldl (fun base entry => base.insert entry.1 entry.2) base = map := by
  refine ext_get? fun key => ?_
  rw [get?_foldl_insert, ← get?_ofList, ofList_entries]
  cases hget : map.get? key with
  | some value => rfl
  | none =>
    have hkey : key ∉ base.keys := mt (h key) (get?_eq_none_iff.mp hget)
    exact get?_eq_none_iff.mpr hkey

end SortedMap

end Logbook
