import Logbook.Proofs.Value.Saved

/-!
# Leaves of nested maps

Below nested maps a value has leaves, its values that are not maps, each at a path of names.
This file says what the leaves know of the value: all but its maps without entries, since the
value without them is made again by planting the leaves one after the other
(`Value.grow_eq_pruned`).

## Strategy

* Where maps are in key order no leaf is behind another (`Value.HasLeaf.eq_of_isPrefix`), so
  no leaf that is planted takes the place of one that was planted before
  (`Value.hasLeaf_plant_iff`).
* Two values without empty maps below them are one as soon as they have the same leaves
  (`Value.Neat.ext`), by induction on one of them: each entry is found again by a leaf in it.
-/

namespace Logbook

namespace Value

variable {value child leaf found : Value} {entries : List (String × Value)} {name : String}
  {path other : List String}

/-! ## Leaves -/

/-- A value that is not a map. -/
def IsLeaf : Value → Prop
  | map _ => False
  | _ => True

/-- The value has a leaf at the end of a path of names. -/
inductive HasLeaf : Value → List String → Value → Prop
  | here {leaf : Value} (h : leaf.IsLeaf) : HasLeaf leaf [] leaf
  | entry {entries : List (String × Value)} {name : String} {child : Value} {path : List String}
      {leaf : Value} (hentry : (name, child) ∈ entries) (h : HasLeaf child path leaf) :
      HasLeaf (map entries) (name :: path) leaf

/-- A name is the key of an entry in one of the nested maps. -/
inductive HasName : Value → String → Prop
  | here {entries : List (String × Value)} {entry : String × Value} (hentry : entry ∈ entries) :
      HasName (map entries) entry.1
  | inside {entries : List (String × Value)} {entry : String × Value} {name : String}
      (hentry : entry ∈ entries) (h : HasName entry.2 name) : HasName (map entries) name

mutual

/-- What holds of each value that is no map, and of a map if it holds of what is in it, holds
of every value. -/
@[elab_as_elim]
theorem mapInduction {motive : Value → Prop} (leaf : ∀ value : Value, value.IsLeaf → motive value)
    (map : ∀ entries, (∀ entry ∈ entries, motive entry.2) → motive (.map entries))
    (value : Value) : motive value := by
  cases value with
  | map entries => exact map entries (mapInductionOnEntries leaf map entries)
  | _ => exact leaf _ trivial

theorem mapInductionOnEntries {motive : Value → Prop}
    (leaf : ∀ value : Value, value.IsLeaf → motive value)
    (map : ∀ entries, (∀ entry ∈ entries, motive entry.2) → motive (.map entries))
    (entries : List (String × Value)) : ∀ entry ∈ entries, motive entry.2 := by
  cases entries with
  | nil => simp
  | cons entry entries =>
    refine List.forall_mem_cons.mpr ⟨?_, mapInductionOnEntries leaf map entries⟩
    exact mapInduction leaf map entry.2

end

theorem HasLeaf.isLeaf (h : value.HasLeaf path leaf) : leaf.IsLeaf := by
  induction h with
  | here h => exact h
  | entry _ _ ih => exact ih

theorem IsLeaf.hasLeaf_iff (h : value.IsLeaf) :
    value.HasLeaf path leaf ↔ path = [] ∧ leaf = value := by
  constructor
  · intro hleaf
    cases hleaf with
    | here _ => exact ⟨rfl, rfl⟩
    | entry _ _ => cases h
  · rintro ⟨rfl, rfl⟩
    exact .here h

theorem not_hasLeaf_map_nil : ¬ (map entries).HasLeaf [] leaf := by
  intro h
  cases h with
  | here h => exact h

theorem hasLeaf_map_cons_iff :
    (map entries).HasLeaf (name :: path) leaf ↔
      ∃ child, (name, child) ∈ entries ∧ child.HasLeaf path leaf := by
  constructor
  · intro h
    cases h with
    | entry hentry h => exact ⟨_, hentry, h⟩
  · rintro ⟨child, hentry, h⟩
    exact .entry hentry h

theorem HasLeaf.hasName (h : value.HasLeaf path leaf) : ∀ name ∈ path, value.HasName name := by
  induction h with
  | here _ => simp
  | entry hentry _ ih =>
    refine List.forall_mem_cons.mpr ⟨.here hentry, fun name hname => ?_⟩
    exact .inside hentry (ih name hname)

/-! ### Maps in key order -/

/-- In a sorted list there is one value a key. -/
theorem eq_of_sorted_entries {first second : Value}
    (hsorted : entries.Pairwise fun left right => left.1 < right.1)
    (hfirst : (name, first) ∈ entries) (hsecond : (name, second) ∈ entries) : first = second :=
  let map : SortedMap String Value := ⟨entries, hsorted⟩
  map.eq_of_mem_entries hfirst hsecond

theorem Ordered.of_mem (h : (map entries).Ordered) {entry : String × Value}
    (hentry : entry ∈ entries) : entry.2.Ordered :=
  orderedEntries_iff.mp h.2 entry hentry

theorem hasLeaf_child_iff (hsorted : entries.Pairwise fun left right => left.1 < right.1)
    (hentry : (name, child) ∈ entries) :
    (map entries).HasLeaf (name :: path) leaf ↔ child.HasLeaf path leaf := by
  rw [hasLeaf_map_cons_iff]
  constructor
  · rintro ⟨same, hsame, h⟩
    rwa [eq_of_sorted_entries hsorted hentry hsame]
  · exact fun h => ⟨child, hentry, h⟩

/-- There is no leaf behind a leaf. -/
theorem HasLeaf.eq_of_isPrefix (hordered : value.Ordered) (h : value.HasLeaf path leaf)
    (hother : value.HasLeaf other found) (hbehind : path <+: other) :
    path = other ∧ leaf = found := by
  induction h generalizing other with
  | here hleaf =>
    obtain ⟨rfl, rfl⟩ := hleaf.hasLeaf_iff.mp hother
    exact ⟨rfl, rfl⟩
  | @entry entries name child path leaf hentry _ ih =>
    cases other with
    | nil => exact absurd hbehind (by simp)
    | cons first other =>
      obtain ⟨rfl, hrest⟩ := List.cons_prefix_cons.mp hbehind
      rw [hasLeaf_child_iff hordered.1 hentry] at hother
      obtain ⟨rfl, hsame⟩ := ih (hordered.of_mem hentry) hother hrest
      exact ⟨rfl, hsame⟩

theorem HasLeaf.unique (hordered : value.Ordered) (h : value.HasLeaf path leaf)
    (hother : value.HasLeaf path found) : leaf = found :=
  (h.eq_of_isPrefix hordered hother List.prefix_rfl).2

/-! ## Depth-first order -/

mutual

/-- The leaves below nested maps, depth first, each with its path. -/
def paths : Value → List (List String × Value)
  | map entries => pathsOfEntries entries
  | leaf => [([], leaf)]

/-- The leaves in entries, depth first. -/
def pathsOfEntries : List (String × Value) → List (List String × Value)
  | [] => []
  | (name, child) :: entries =>
      child.paths.map (fun found => (name :: found.1, found.2)) ++ pathsOfEntries entries

end

theorem IsLeaf.paths_eq (h : value.IsLeaf) : value.paths = [([], value)] := by
  cases value with
  | map entries => cases h
  | _ => rfl

theorem pathsOfEntries_eq_flatMap (entries : List (String × Value)) :
    pathsOfEntries entries = entries.flatMap fun entry =>
      entry.2.paths.map fun found => (entry.1 :: found.1, found.2) := by
  induction entries with
  | nil => rfl
  | cons entry entries ih => rw [pathsOfEntries, ih, List.flatMap_cons]

theorem mem_paths_iff : (path, leaf) ∈ value.paths ↔ value.HasLeaf path leaf := by
  induction value using mapInduction generalizing path with
  | leaf value h => simp [h.paths_eq, h.hasLeaf_iff]
  | map entries ih =>
    rw [paths, pathsOfEntries_eq_flatMap, List.mem_flatMap]
    constructor
    · rintro ⟨⟨name, child⟩, hentry, hfound⟩
      obtain ⟨⟨rest, found⟩, hrest, heq⟩ := List.mem_map.mp hfound
      cases heq
      exact .entry hentry ((ih _ hentry).mp hrest)
    · intro h
      cases h with
      | here h => cases h
      | @entry _ name child rest _ hentry h =>
        exact ⟨_, hentry, List.mem_map.mpr ⟨(rest, leaf), (ih _ hentry).mpr h, rfl⟩⟩

/-- Depth first, the paths ascend: those of entries with smaller keys come first. -/
theorem pairwise_paths (hordered : value.Ordered) :
    value.paths.Pairwise fun left right => left.1 < right.1 := by
  induction value using mapInduction with
  | leaf value h => simp [h.paths_eq]
  | map entries ih =>
    rw [paths, pathsOfEntries_eq_flatMap, List.pairwise_flatMap]
    constructor
    · intro entry hentry
      refine List.pairwise_map.mpr ((ih entry hentry (hordered.of_mem hentry)).imp ?_)
      exact fun hlt => List.cons_lt_cons_self.mpr hlt
    · refine hordered.1.imp fun {left right} hlt first hfirst second hsecond => ?_
      obtain ⟨_, -, rfl⟩ := List.mem_map.mp hfirst
      obtain ⟨_, -, rfl⟩ := List.mem_map.mp hsecond
      exact List.cons_lt_cons_iff.mpr (.inl hlt)

/-! ## Maps without entries -/

/-- A value in key order in which no map below another is empty. -/
inductive Neat : Value → Prop
  | leaf {value : Value} (h : value.IsLeaf) : Neat value
  | entries {entries : List (String × Value)}
      (sorted : entries.Pairwise fun left right => left.1 < right.1)
      (neat : ∀ entry ∈ entries, Neat entry.2) (full : ∀ entry ∈ entries, entry.2 ≠ map []) :
      Neat (map entries)

theorem Neat.exists_hasLeaf (h : value.Neat) (hfull : value ≠ map []) :
    ∃ path leaf, value.HasLeaf path leaf := by
  induction h with
  | leaf h => exact ⟨[], _, .here h⟩
  | @entries entries _ _ full ih =>
    cases entries with
    | nil => exact absurd rfl hfull
    | cons entry entries =>
      have hentry : entry ∈ entry :: entries := List.mem_cons_self
      obtain ⟨path, leaf, hleaf⟩ := ih entry hentry (full entry hentry)
      exact ⟨entry.1 :: path, leaf, .entry hentry hleaf⟩

/-- An entry of a value without empty maps is found again, by a leaf in it, in a map that has
the leaves of the value. -/
theorem Neat.exists_entry {others : List (String × Value)} (hneat : child.Neat)
    (hfull : child ≠ map []) (hentry : (name, child) ∈ entries)
    (h : ∀ path leaf, (map entries).HasLeaf path leaf → (map others).HasLeaf path leaf) :
    ∃ other, (name, other) ∈ others := by
  obtain ⟨path, leaf, hleaf⟩ := hneat.exists_hasLeaf hfull
  obtain ⟨other, hother, -⟩ := hasLeaf_map_cons_iff.mp (h _ _ (.entry hentry hleaf))
  exact ⟨other, hother⟩

/-- **Without empty maps a value is known by its leaves.** -/
theorem Neat.ext {first second : Value} (hfirst : first.Neat) (hsecond : second.Neat)
    (h : ∀ path leaf, first.HasLeaf path leaf ↔ second.HasLeaf path leaf) : first = second := by
  induction hfirst generalizing second with
  | leaf hleaf =>
    cases (h [] _).mp (.here hleaf)
    rfl
  | @entries lefts sorted neat full ih =>
    cases hsecond with
    | leaf hleaf => exact absurd ((h [] _).mpr (.here hleaf)) not_hasLeaf_map_nil
    | @entries rights sorted' neat' full' =>
      have hsame {name : String} {left right : Value} (hleft : (name, left) ∈ lefts)
          (hright : (name, right) ∈ rights) : left = right := by
        refine ih _ hleft (neat' _ hright) fun path leaf => ?_
        rw [← hasLeaf_child_iff sorted hleft, ← hasLeaf_child_iff sorted' hright]
        exact h (name :: path) leaf
      refine congrArg map (SortedMap.eq_of_sorted sorted sorted' fun (name, child) => ⟨?_, ?_⟩)
      · intro hleft
        obtain ⟨right, hright⟩ := (neat _ hleft).exists_entry (full _ hleft) hleft
          fun path leaf => (h path leaf).mp
        rwa [hsame hleft hright]
      · intro hright
        obtain ⟨left, hleft⟩ := (neat' _ hright).exists_entry (full' _ hright) hright
          fun path leaf => (h path leaf).mpr
        rwa [← hsame hleft hright]

/-- Whether a value is a map without entries. -/
def isEmptyMap : Value → Bool
  | map [] => true
  | _ => false

theorem isEmptyMap_iff : value.isEmptyMap = true ↔ value = map [] := by
  cases value with
  | map entries => cases entries <;> simp [isEmptyMap]
  | _ => simp [isEmptyMap]

mutual

/-- The value without the empty maps below it.  A map that only had such maps goes as well. -/
def pruned : Value → Value
  | map entries => map (prunedEntries entries)
  | leaf => leaf

/-- The entries without those that have no leaves. -/
def prunedEntries : List (String × Value) → List (String × Value)
  | [] => []
  | (name, child) :: entries =>
      if child.pruned.isEmptyMap then prunedEntries entries
      else (name, child.pruned) :: prunedEntries entries

end

theorem IsLeaf.pruned_eq (h : value.IsLeaf) : value.pruned = value := by
  cases value with
  | map entries => cases h
  | _ => rfl

theorem prunedEntries_eq_filter (entries : List (String × Value)) :
    prunedEntries entries = (entries.map fun entry => (entry.1, entry.2.pruned)).filter
      fun entry => !entry.2.isEmptyMap := by
  induction entries with
  | nil => rfl
  | cons entry entries ih =>
    rw [prunedEntries, ih, List.map_cons, List.filter_cons]
    cases entry.2.pruned.isEmptyMap <;> rfl

theorem mem_prunedEntries_iff {entry : String × Value} :
    entry ∈ prunedEntries entries ↔
      (∃ child, (entry.1, child) ∈ entries ∧ child.pruned = entry.2) ∧ entry.2 ≠ map [] := by
  rw [prunedEntries_eq_filter, List.mem_filter, Bool.not_eq_true', ← Bool.not_eq_true, ne_eq,
    isEmptyMap_iff, List.mem_map]
  refine and_congr_left fun _ => ⟨?_, ?_⟩
  · rintro ⟨⟨name, child⟩, hentry, rfl⟩
    exact ⟨child, hentry, rfl⟩
  · rintro ⟨child, hentry, hpruned⟩
    exact ⟨(entry.1, child), hentry, Prod.ext rfl hpruned⟩

theorem neat_pruned (hordered : value.Ordered) : value.pruned.Neat := by
  induction value using mapInduction with
  | leaf value h =>
    rw [h.pruned_eq]
    exact .leaf h
  | map entries ih =>
    refine .entries ?_ (fun entry hentry => ?_) fun entry hentry => ?_
    · rw [prunedEntries_eq_filter]
      have hsorted : (entries.map fun entry => (entry.1, entry.2.pruned)).Pairwise
          fun left right => left.1 < right.1 := List.pairwise_map.mpr hordered.1
      exact hsorted.filter _
    · obtain ⟨⟨child, hchild, heq⟩, -⟩ := mem_prunedEntries_iff.mp hentry
      rw [← heq]
      exact ih _ hchild (hordered.of_mem hchild)
    · exact (mem_prunedEntries_iff.mp hentry).2

theorem HasLeaf.ne_map_nil (h : value.HasLeaf path leaf) : value ≠ map [] := by
  rintro rfl
  cases h with
  | here h => cases h
  | entry hentry _ => cases hentry

/-- Nothing is lost but empty maps. -/
theorem hasLeaf_pruned_iff : value.pruned.HasLeaf path leaf ↔ value.HasLeaf path leaf := by
  induction value using mapInduction generalizing path with
  | leaf value h => rw [h.pruned_eq]
  | map entries ih =>
    rw [pruned]
    cases path with
    | nil => simp [not_hasLeaf_map_nil]
    | cons name path =>
      rw [hasLeaf_map_cons_iff, hasLeaf_map_cons_iff]
      constructor
      · rintro ⟨_, hentry, hleaf⟩
        obtain ⟨⟨child, hchild, rfl⟩, -⟩ := mem_prunedEntries_iff.mp hentry
        exact ⟨child, hchild, (ih _ hchild).mp hleaf⟩
      · rintro ⟨child, hchild, hleaf⟩
        have hpruned := (ih _ hchild).mpr hleaf
        exact ⟨_, mem_prunedEntries_iff.mpr ⟨⟨child, hchild, rfl⟩, hpruned.ne_map_nil⟩, hpruned⟩

/-! ## Planting leaves -/

/-- The value in the entry of a name, an empty map if there is none. -/
def childOf (name : String) (entries : List (String × Value)) : Value :=
  ((entries.find? fun entry => entry.1 = name).map Prod.snd).getD (map [])

/-- Puts a leaf at the end of a path, with the maps that are not there yet. -/
def plant (leaf : Value) : List String → Value → Value
  | [], _ => leaf
  | name :: path, map entries =>
      map (SortedMap.insertEntry name (plant leaf path (childOf name entries)) entries)
  | name :: path, _ => map [(name, plant leaf path (map []))]

/-- No leaf of a value is at a path, in front of it or behind it. -/
def Clear (path : List String) (value : Value) : Prop :=
  ∀ other found, value.HasLeaf other found → ¬ path <+: other ∧ ¬ other <+: path

theorem childOf_cases (name : String) (entries : List (String × Value)) :
    (name, childOf name entries) ∈ entries ∨
      childOf name entries = map [] ∧ ∀ child, (name, child) ∉ entries := by
  unfold childOf
  cases hfind : entries.find? fun entry => entry.1 = name with
  | none =>
    refine .inr ⟨rfl, fun child hchild => ?_⟩
    simpa using List.find?_eq_none.mp hfind _ hchild
  | some entry =>
    have hname : entry.1 = name := by simpa using List.find?_some hfind
    subst hname
    exact .inl (List.mem_of_find?_eq_some hfind)

theorem hasLeaf_childOf_iff (hsorted : entries.Pairwise fun left right => left.1 < right.1) :
    (childOf name entries).HasLeaf path leaf ↔ (map entries).HasLeaf (name :: path) leaf := by
  rcases childOf_cases name entries with hentry | ⟨hnone, hmissing⟩
  · exact (hasLeaf_child_iff hsorted hentry).symm
  · rw [hnone, hasLeaf_map_cons_iff]
    constructor
    · exact fun h => absurd rfl h.ne_map_nil
    · rintro ⟨child, hchild, -⟩
      exact absurd hchild (hmissing child)

theorem neat_childOf (neat : ∀ entry ∈ entries, entry.2.Neat) : (childOf name entries).Neat := by
  rcases childOf_cases name entries with hentry | ⟨hnone, -⟩
  · exact neat _ hentry
  · rw [hnone]
    exact .entries .nil (by simp) (by simp)

theorem clear_childOf (hsorted : entries.Pairwise fun left right => left.1 < right.1)
    (h : Clear (name :: path) (map entries)) : Clear path (childOf name entries) := by
  intro other found hfound
  have hpaths := h (name :: other) found ((hasLeaf_childOf_iff hsorted).mp hfound)
  simpa [List.cons_prefix_cons] using hpaths

/-- There is no room behind a leaf, so something planted there goes into a map. -/
theorem Clear.exists_entries (h : Clear (name :: path) value) : ∃ entries, value = map entries := by
  cases value with
  | map entries => exact ⟨entries, rfl⟩
  | _ => exact absurd List.nil_prefix (h [] _ (.here trivial)).2

/-- **A leaf that is planted in a clear place comes to the others.** -/
theorem hasLeaf_plant_iff (hleaf : leaf.IsLeaf) (hneat : value.Neat) (hclear : Clear path value) :
    (plant leaf path value).HasLeaf other found ↔
      other = path ∧ found = leaf ∨ value.HasLeaf other found := by
  induction path generalizing value other with
  | nil =>
    have hnone : ¬ value.HasLeaf other found := fun h => (hclear _ _ h).1 List.nil_prefix
    rw [plant, hleaf.hasLeaf_iff, or_iff_left hnone]
  | cons name path ih =>
    obtain ⟨entries, rfl⟩ := hclear.exists_entries
    cases hneat with
    | leaf h => cases h
    | entries sorted neat full =>
      rw [plant]
      cases other with
      | nil => simp [not_hasLeaf_map_nil]
      | cons first other =>
        rw [hasLeaf_map_cons_iff]
        simp only [SortedMap.mem_insertEntry_iff sorted, Prod.mk.injEq]
        -- Only the entry of the first name is another one.
        by_cases hfirst : first = name
        · subst hfirst
          have hplanted : (plant leaf path (childOf first entries)).HasLeaf other found ↔
              other = path ∧ found = leaf ∨ (childOf first entries).HasLeaf other found :=
            ih (neat_childOf neat) (clear_childOf sorted hclear)
          rw [hasLeaf_childOf_iff sorted] at hplanted
          simpa using hplanted
        · simp [hfirst, hasLeaf_map_cons_iff]

theorem plant_ne_map_nil (hleaf : leaf.IsLeaf) (hneat : value.Neat) (hclear : Clear path value) :
    plant leaf path value ≠ map [] :=
  ((hasLeaf_plant_iff hleaf hneat hclear).mpr (.inl ⟨rfl, rfl⟩)).ne_map_nil

theorem neat_plant (hleaf : leaf.IsLeaf) (hneat : value.Neat) (hclear : Clear path value) :
    (plant leaf path value).Neat := by
  induction path generalizing value with
  | nil => exact .leaf hleaf
  | cons name path ih =>
    obtain ⟨entries, rfl⟩ := hclear.exists_entries
    cases hneat with
    | leaf h => cases h
    | entries sorted neat full =>
      have hneat : (childOf name entries).Neat := neat_childOf neat
      have hclear := clear_childOf sorted hclear
      refine .entries (SortedMap.sorted_insertEntry sorted) (fun entry hentry => ?_)
        fun entry hentry => ?_
      · rcases SortedMap.mem_insertEntry hentry with rfl | hold
        · exact ih hneat hclear
        · exact neat entry hold
      · rcases SortedMap.mem_insertEntry hentry with rfl | hold
        · exact plant_ne_map_nil hleaf hneat hclear
        · exact full entry hold

/-! ## Values from their leaves -/

/-- Plants leaves one after the other. -/
def plantAll (leaves : List (List String × Value)) (value : Value) : Value :=
  leaves.foldl (fun value found => plant found.2 found.1 value) value

/-- The value that has the leaves in a list. -/
def grow (leaves : List (List String × Value)) : Value := plantAll leaves (map [])

/-- Leaves that keep clear of each other are all there in the end. -/
theorem plantAll_spec {leaves : List (List String × Value)}
    (hleaves : ∀ found ∈ leaves, found.2.IsLeaf)
    (hapart : leaves.Pairwise fun left right => ¬ left.1 <+: right.1 ∧ ¬ right.1 <+: left.1)
    (hneat : value.Neat) (hclear : ∀ found ∈ leaves, Clear found.1 value) :
    (plantAll leaves value).Neat ∧ ∀ path leaf, (plantAll leaves value).HasLeaf path leaf ↔
      (path, leaf) ∈ leaves ∨ value.HasLeaf path leaf := by
  induction leaves generalizing value with
  | nil => exact ⟨hneat, by simp [plantAll]⟩
  | cons first leaves ih =>
    obtain ⟨hfirst, hleaves⟩ := List.forall_mem_cons.mp hleaves
    obtain ⟨hfirstClear, hclear⟩ := List.forall_mem_cons.mp hclear
    obtain ⟨hfirstApart, hapart⟩ := List.pairwise_cons.mp hapart
    have hplanted (path : List String) (leaf : Value) :
        (plant first.2 first.1 value).HasLeaf path leaf ↔
          path = first.1 ∧ leaf = first.2 ∨ value.HasLeaf path leaf :=
      hasLeaf_plant_iff hfirst hneat hfirstClear
    -- The leaf that is there now is not in the way of the others.
    have hstill : ∀ found ∈ leaves, Clear found.1 (plant first.2 first.1 value) := by
      intro found hfound path leaf hleaf
      rcases (hplanted path leaf).mp hleaf with ⟨rfl, -⟩ | hold
      · exact (hfirstApart found hfound).symm
      · exact hclear found hfound path leaf hold
    obtain ⟨hall, hiff⟩ := ih hleaves hapart (neat_plant hfirst hneat hfirstClear) hstill
    refine ⟨hall, fun path leaf => (hiff path leaf).trans ?_⟩
    rw [hplanted, List.mem_cons, Prod.ext_iff]
    tauto

/-- **The leaves of a value make it again, without its empty maps**, in whatever order they
come. -/
theorem grow_eq_pruned {leaves : List (List String × Value)} (hordered : value.Ordered)
    (hnodup : leaves.Nodup) (hmem : ∀ path leaf, (path, leaf) ∈ leaves ↔ value.HasLeaf path leaf) :
    grow leaves = value.pruned := by
  have hleaves : ∀ found ∈ leaves, found.2.IsLeaf := fun found hfound =>
    ((hmem found.1 found.2).mp hfound).isLeaf
  -- There is no leaf behind another, and no two at one path.
  have hapart : leaves.Pairwise fun left right => ¬ left.1 <+: right.1 ∧ ¬ right.1 <+: left.1 := by
    refine hnodup.imp_of_mem fun {left right} hleft hright hne => ?_
    have hleft := (hmem left.1 left.2).mp hleft
    have hright := (hmem right.1 right.2).mp hright
    constructor
    · intro h
      obtain ⟨hpath, hvalue⟩ := hleft.eq_of_isPrefix hordered hright h
      exact hne (Prod.ext hpath hvalue)
    · intro h
      obtain ⟨hpath, hvalue⟩ := hright.eq_of_isPrefix hordered hleft h
      exact hne (Prod.ext hpath hvalue).symm
  have hempty : (map []).Neat := .entries .nil (by simp) (by simp)
  obtain ⟨hneat, hgrown⟩ := plantAll_spec hleaves hapart hempty fun found _ path leaf hleaf =>
    absurd rfl hleaf.ne_map_nil
  refine hneat.ext (neat_pruned hordered) fun path leaf => ?_
  rw [hgrown, hmem, hasLeaf_pruned_iff, or_iff_left fun h => h.ne_map_nil rfl]

end Value

end Logbook
