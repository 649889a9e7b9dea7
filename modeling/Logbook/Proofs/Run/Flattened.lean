import Logbook.Proofs.Path
import Logbook.Proofs.Run.Metadata
import Logbook.Proofs.Value.Leaves

/-!
# Flattened metadata

A scan puts the metadata of a run into one flat document: a leaf below nested maps gets the
names on its path for its key, with dots between them.  Names can have dots and can be empty,
so leaves can share a key.  This file says what is in the document afterwards
(`Run.flattens`): under the key of a leaf the last leaf with this key, and all else as before;
and that nothing is lost if there are no dots in names, for the metadata without its empty maps
can then be read off the document (`Run.rebuilt`).

## Strategy

* `flattenInto` adds the leaves in depth-first order, and this is the order of their paths
  (`Value.pairwise_paths`), so the leaf that counts is the one with the greatest path.
* A key is cut at its dots into the pieces of the path again (`pieces_joined`), so the document
  has exactly the leaves of the value at and below the key (`mem_below_iff`), and these make the
  value again (`Value.grow_eq_pruned`).
-/

namespace Logbook

namespace Run

open Outcome

variable {key other : String} {value leaf found : Value} {path : List String}
  {document : Document}

mutual

/-- Puts the leaves of a value into a document, under the dotted paths to them. -/
def flattenInto (key : String) : Value → Document → Document
  | .map entries, document => flattenEntriesInto key entries document
  | leaf, document => document.insert key leaf

/-- Puts the leaves in entries below a key into a document. -/
def flattenEntriesInto (key : String) : List (String × Value) → Document → Document
  | [], document => document
  | (name, child) :: entries, document =>
      flattenEntriesInto key entries (flattenInto (key ++ "." ++ name) child document)

end

/-- A key with the names on a path behind it, with dots between them. -/
def joined (key : String) (path : List String) : String :=
  path.foldl (fun key name => key ++ "." ++ name) key

@[simp] theorem joined_nil (key : String) : joined key [] = key := rfl

@[simp] theorem joined_cons (key name : String) (path : List String) :
    joined key (name :: path) = joined (key ++ "." ++ name) path := rfl

/-! ## Leaves one after the other -/

theorem leavesOfEntries_eq_flatMap (key : String) (entries : List (String × Value)) :
    leavesOfEntries key entries =
      entries.flatMap fun entry => leaves (key ++ "." ++ entry.1) entry.2 := by
  induction entries with
  | nil => rfl
  | cons entry entries ih => rw [leavesOfEntries, ih, List.flatMap_cons]

theorem leaves_of_isLeaf (h : value.IsLeaf) (key : String) : leaves key value = [(key, value)] := by
  cases value with
  | map entries => cases h
  | _ => rfl

theorem flattenInto_of_isLeaf (h : value.IsLeaf) (key : String) (document : Document) :
    flattenInto key value document = document.insert key value := by
  cases value with
  | map entries => cases h
  | _ => rfl

/-- The keys in the list of leaves are joined from their paths. -/
theorem leaves_eq_map (key : String) (value : Value) :
    leaves key value = value.paths.map fun found => (joined key found.1, found.2) := by
  induction value using Value.mapInduction generalizing key with
  | leaf value h => rw [leaves_of_isLeaf h, h.paths_eq, List.map_singleton, joined_nil]
  | map entries ih =>
    rw [leaves, Value.paths, leavesOfEntries_eq_flatMap, Value.pathsOfEntries_eq_flatMap,
      List.map_flatMap]
    refine List.flatMap_congr fun entry hentry => ?_
    rw [ih entry hentry, List.map_map]
    rfl

theorem flattenInto_eq_foldl (key : String) (value : Value) (document : Document) :
    flattenInto key value document =
      (leaves key value).foldl (fun document leaf => document.insert leaf.1 leaf.2) document := by
  induction value using Value.mapInduction generalizing key document with
  | leaf value h =>
    rw [flattenInto_of_isLeaf h, leaves_of_isLeaf h, List.foldl_cons, List.foldl_nil]
  | map entries ih =>
    rw [flattenInto, leaves]
    -- Each entry is flattened into what the ones before it have left.
    induction entries generalizing document with
    | nil => rfl
    | cons entry entries ihEntries =>
      obtain ⟨hentry, hentries⟩ := List.forall_mem_cons.mp ih
      rw [flattenEntriesInto, leavesOfEntries, List.foldl_append, ← hentry, ihEntries hentries]

/-- This is how the document of a run comes to its metadata. -/
theorem ofList_append_leaves (before : List (String × Value)) (key : String) (value : Value) :
    SortedMap.ofList (before ++ leaves key value) =
      flattenInto key value (SortedMap.ofList before) := by
  rw [flattenInto_eq_foldl, SortedMap.ofList, List.foldl_append]
  rfl

theorem get?_flattenInto (key : String) (value : Value) (document : Document) (other : String) :
    (flattenInto key value document).get? other =
      ((value.paths.reverse.find? fun found => joined key found.1 = other).map Prod.snd).or
        (document.get? other) := by
  rw [flattenInto_eq_foldl, SortedMap.get?_foldl_insert, leaves_eq_map, ← List.map_reverse,
    List.find?_map, Option.map_map]
  rfl

/-! ## The leaf that counts -/

/-- Of the leaves with one key this is the last in depth-first order: its path is the greatest. -/
structure IsLast (key : String) (value : Value) (path : List String) (leaf : Value) : Prop where
  hasLeaf : value.HasLeaf path leaf
  greatest : ∀ other found, value.HasLeaf other found → joined key other = joined key path →
    other = path ∨ other < path

theorem isLast_of_find? (hordered : value.Ordered) {last : List String × Value}
    (h : (value.paths.reverse.find? fun found => joined key found.1 = other) = some last) :
    IsLast key value last.1 last.2 ∧ joined key last.1 = other := by
  obtain ⟨hkey, after, before, hsplit, hafter⟩ := List.find?_eq_some_iff_append.mp h
  obtain rfl : joined key last.1 = other := by simpa using hkey
  have hlast : last ∈ value.paths := List.mem_reverse.mp (List.mem_of_find?_eq_some h)
  refine ⟨⟨Value.mem_paths_iff.mp hlast, fun path found hfound hsame => ?_⟩, rfl⟩
  have hdescending := List.pairwise_reverse.mpr (Value.pairwise_paths hordered)
  rw [hsplit] at hdescending
  have hmem : (path, found) ∈ value.paths.reverse :=
    List.mem_reverse.mpr (Value.mem_paths_iff.mpr hfound)
  rw [hsplit, List.mem_append, List.mem_cons] at hmem
  -- A leaf that comes later has another key, and one that comes earlier a smaller path.
  rcases hmem with hlater | rfl | hearlier
  · simpa [hsame] using hafter _ hlater
  · exact .inl rfl
  · have hbelow := (List.pairwise_append.mp hdescending).2.1
    exact .inr (List.rel_of_pairwise_cons hbelow hearlier)

/-- Under the key of a leaf there is the last leaf with this key. -/
theorem get?_flattenInto_of_hasLeaf (key : String) (hordered : value.Ordered) (document : Document)
    (h : value.HasLeaf path leaf) : ∃ last found, IsLast key value last found ∧
      joined key last = joined key path ∧
      (flattenInto key value document).get? (joined key path) = some found := by
  rw [get?_flattenInto]
  cases hfind : value.paths.reverse.find? fun found => joined key found.1 = joined key path with
  | none =>
    have hmem : (path, leaf) ∈ value.paths.reverse :=
      List.mem_reverse.mpr (Value.mem_paths_iff.mpr h)
    simpa using List.find?_eq_none.mp hfind _ hmem
  | some last =>
    obtain ⟨hlast, hkey⟩ := isLast_of_find? hordered hfind
    exact ⟨last.1, last.2, hlast, hkey, rfl⟩

/-- Under any other key there is what was there before. -/
theorem get?_flattenInto_of_ne (document : Document)
    (h : ∀ path leaf, value.HasLeaf path leaf → joined key path ≠ other) :
    (flattenInto key value document).get? other = document.get? other := by
  have hnone : (value.paths.reverse.find? fun found => joined key found.1 = other) = none := by
    refine List.find?_eq_none.mpr fun found hfound => ?_
    have hleaf := Value.mem_paths_iff.mp (List.mem_reverse.mp hfound)
    simpa using h _ _ hleaf
  rw [get?_flattenInto, hnone, Option.map_none, Option.none_or]

/-! ## Keys without dots in names -/

/-- No name in the nested maps has a dot in it. -/
def Undotted (value : Value) : Prop := ∀ name, value.HasName name → '.' ∉ name.toList

theorem Undotted.of_hasLeaf (h : Undotted value) (hleaf : value.HasLeaf path leaf) :
    ∀ name ∈ path, '.' ∉ name.toList :=
  fun name hname => h name (hleaf.hasName name hname)

theorem pieces_metric (first rest : String) :
    Path.pieces '.' (first ++ "." ++ rest) = Path.pieces '.' first ++ Path.pieces '.' rest := by
  have hchars := Key.toList_metric first rest
  rw [Key.metric] at hchars
  rw [Path.pieces, hchars, Path.splitChars_append_separator, List.map_append]
  rfl

theorem pieces_of_notMem {name : String} (h : '.' ∉ name.toList) :
    Path.pieces '.' name = [name] := by
  rw [Path.pieces, Path.splitChars_of_notMem h, List.map_singleton, String.ofList_toList]

/-- A key is cut at its dots into what it was joined from. -/
theorem pieces_joined (h : ∀ name ∈ path, '.' ∉ name.toList) :
    Path.pieces '.' (joined key path) = Path.pieces '.' key ++ path := by
  induction path generalizing key with
  | nil => rw [joined_nil, List.append_nil]
  | cons name path ih =>
    obtain ⟨hname, hpath⟩ := List.forall_mem_cons.mp h
    rw [joined_cons, ih hpath, pieces_metric, pieces_of_notMem hname, List.append_assoc]
    rfl

theorem joined_inj {first second : List String} (hfirst : ∀ name ∈ first, '.' ∉ name.toList)
    (hsecond : ∀ name ∈ second, '.' ∉ name.toList)
    (h : joined key first = joined key second) : first = second := by
  have hpieces := congrArg (Path.pieces '.') h
  rw [pieces_joined hfirst, pieces_joined hsecond] at hpieces
  exact List.append_cancel_left hpieces

/-! ## Metadata from the document -/

/-- The path that a key below another was joined from. -/
def pathBelow? (key other : String) : Option (List String) :=
  if other = key then some [] else (Key.after? (key ++ ".") other).map (Path.pieces '.')

/-- The values in a document at and below a key, with their paths. -/
def below (key : String) (document : Document) : List (List String × Value) :=
  document.entries.filterMap fun entry => (pathBelow? key entry.1).map fun path => (path, entry.2)

/-- The value that is spread over a document at and below a key. -/
def rebuilt (key : String) (document : Document) : Value := Value.grow (below key document)

theorem pathBelow?_eq_none_iff : pathBelow? key other = none ↔ ¬ IsOf key other := by
  unfold pathBelow? IsOf
  split
  · next heq => simp [heq]
  · next hne =>
    rw [Option.map_eq_none_iff, Option.eq_none_iff_forall_ne_some]
    simp [hne, Key.after?_eq_some_iff]

theorem joined_append (first key : String) (path : List String) :
    joined (first ++ key) path = first ++ joined key path := by
  induction path generalizing key with
  | nil => rfl
  | cons name path ih =>
    have hassoc : first ++ key ++ "." ++ name = first ++ (key ++ "." ++ name) := by
      simp only [String.append_assoc]
    rw [joined_cons, joined_cons, hassoc, ih]

theorem pathBelow?_joined (h : ∀ name ∈ path, '.' ∉ name.toList) :
    pathBelow? key (joined key path) = some path := by
  cases path with
  | nil => rw [joined_nil, pathBelow?, if_pos rfl]
  | cons name path =>
    obtain ⟨hname, hpath⟩ := List.forall_mem_cons.mp h
    have hbelow : joined key (name :: path) = key ++ "." ++ joined name path :=
      joined_append (key ++ ".") name path
    have hne : joined key (name :: path) ≠ key := by
      rw [hbelow]
      intro heq
      have hlength := congrArg (fun text => text.toList.length) heq
      simp only [String.toList_append, List.length_append] at hlength
      have hdot : ".".toList.length = 1 := rfl
      omega
    rw [pathBelow?, if_neg hne, hbelow, Key.after?_append, Option.map_some, pieces_joined hpath,
      pieces_of_notMem hname, List.singleton_append]

/-- The pieces of a text make it again. -/
theorem exists_joined_splitChars (chars : List Char) :
    ∃ piece pieces, Path.splitChars '.' chars = piece :: pieces ∧
      joined (String.ofList piece) (pieces.map String.ofList) = String.ofList chars := by
  induction chars with
  | nil => exact ⟨[], [], rfl, rfl⟩
  | cons c chars ih =>
    obtain ⟨piece, pieces, hsplit, hjoined⟩ := ih
    obtain ⟨piece', pieces', hsplit', hcons⟩ := Path.splitChars_cons '.' c chars
    obtain ⟨rfl, rfl⟩ := List.cons.inj (hsplit.symm.trans hsplit')
    have hfirst (rest : List Char) :
        String.ofList (c :: rest) = String.ofList [c] ++ String.ofList rest := by
      rw [← String.ofList_append, List.singleton_append]
    rw [hcons]
    split
    · next hdot =>
      refine ⟨[], piece :: pieces, rfl, ?_⟩
      have hstart : String.ofList [] ++ "." = String.ofList [c] := by
        rw [eq_of_beq hdot]
        rfl
      rw [List.map_cons, joined_cons, hstart, joined_append, hjoined, ← hfirst]
    · refine ⟨c :: piece, pieces, rfl, ?_⟩
      rw [hfirst piece, joined_append, hjoined, ← hfirst]

theorem joined_of_pathBelow? (h : pathBelow? key other = some path) : joined key path = other := by
  unfold pathBelow? at h
  split at h
  · next heq =>
    cases h
    exact heq.symm
  · obtain ⟨rest, hrest, rfl⟩ := Option.map_eq_some_iff.mp h
    obtain ⟨piece, pieces, hsplit, hjoined⟩ := exists_joined_splitChars rest.toList
    rw [Path.pieces, hsplit, List.map_cons, joined_cons, joined_append, hjoined,
      String.ofList_toList]
    exact (Key.after?_eq_some_iff.mp hrest).symm

theorem nodup_below (key : String) (document : Document) : (below key document).Nodup := by
  have hnodup : document.entries.Nodup := List.Nodup.of_map Prod.fst document.nodup_keys
  refine hnodup.filterMap fun left right found hleft hright => ?_
  obtain ⟨path, hpath, rfl⟩ := Option.map_eq_some_iff.mp hleft
  obtain ⟨other, hother, heq⟩ := Option.map_eq_some_iff.mp hright
  obtain ⟨rfl, hvalue⟩ := Prod.mk.inj heq
  have hkey : left.1 = right.1 :=
    (joined_of_pathBelow? hpath).symm.trans (joined_of_pathBelow? hother)
  exact Prod.ext hkey hvalue.symm

/-- After flattening, the document has exactly the leaves of the value at and below the key. -/
theorem mem_below_iff (hordered : value.Ordered) (hundotted : Undotted value)
    (hfree : ∀ other ∈ document.keys, ¬ IsOf key other) :
    (path, leaf) ∈ below key (flattenInto key value document) ↔ value.HasLeaf path leaf := by
  simp only [below, List.mem_filterMap, Option.map_eq_some_iff, Prod.mk.injEq]
  constructor
  · rintro ⟨⟨other, leaf⟩, hentry, path, hpath, rfl, rfl⟩
    have hget := SortedMap.get?_eq_some_iff.mpr hentry
    by_cases hleaf : ∃ path leaf, value.HasLeaf path leaf ∧ joined key path = other
    · obtain ⟨first, found, hfound, rfl⟩ := hleaf
      obtain ⟨last, found, hlast, hsame, hwritten⟩ :=
        get?_flattenInto_of_hasLeaf key hordered document hfound
      cases hget.symm.trans hwritten
      rw [← hsame, pathBelow?_joined (hundotted.of_hasLeaf hlast.hasLeaf)] at hpath
      cases hpath
      exact hlast.hasLeaf
    · -- Nothing was at or below the key before.
      push Not at hleaf
      rw [get?_flattenInto_of_ne document hleaf] at hget
      have hisOf : ¬ IsOf key other :=
        hfree other (SortedMap.mem_keys.mpr ⟨_, SortedMap.mem_of_get? hget⟩)
      cases hpath.symm.trans (pathBelow?_eq_none_iff.mpr hisOf)
  · intro hleaf
    have hnames := hundotted.of_hasLeaf hleaf
    obtain ⟨last, found, hlast, hsame, hwritten⟩ :=
      get?_flattenInto_of_hasLeaf key hordered document hleaf
    obtain rfl := joined_inj (hundotted.of_hasLeaf hlast.hasLeaf) hnames hsame
    obtain rfl := hleaf.unique hordered hlast.hasLeaf
    exact ⟨_, SortedMap.get?_eq_some_iff.mp hwritten, last, pathBelow?_joined hnames, rfl, rfl⟩

/-- What flattening a value below a key does to documents. -/
structure Flattens (key : String) (value : Value) : Prop where
  /-- This is what a scan does with a group of the metadata of a run. -/
  scanned : ∀ before, SortedMap.ofList (before ++ leaves key value) =
    flattenInto key value (SortedMap.ofList before)
  /-- The key of each leaf is added, with the last leaf that has it. -/
  added : ∀ document path leaf, value.HasLeaf path leaf → ∃ last found,
    IsLast key value last found ∧ joined key last = joined key path ∧
      (flattenInto key value document).get? (joined key path) = some found
  /-- All other keys keep what they have. -/
  kept : ∀ document other, (∀ path leaf, value.HasLeaf path leaf → joined key path ≠ other) →
    (flattenInto key value document).get? other = document.get? other
  /-- Without dots in names no two leaves share a key. -/
  distinct : Undotted value → ∀ path leaf other found, value.HasLeaf path leaf →
    value.HasLeaf other found → joined key path = joined key other → path = other ∧ leaf = found
  /-- So the value without its empty maps can be read off a document that had nothing at the
  key and below it before. -/
  rebuilds : Undotted value → ∀ document : Document, (∀ other ∈ document.keys, ¬ IsOf key other) →
    rebuilt key (flattenInto key value document) = value.pruned

/-- **Flattening loses and invents nothing.** -/
theorem flattens (key : String) (hordered : value.Ordered) : Flattens key value where
  scanned before := ofList_append_leaves before key value
  added document _ _ h := get?_flattenInto_of_hasLeaf _ hordered document h
  kept document _ h := get?_flattenInto_of_ne document h
  distinct hundotted _ _ _ _ hleaf hother hsame := by
    obtain rfl := joined_inj (hundotted.of_hasLeaf hleaf) (hundotted.of_hasLeaf hother) hsame
    exact ⟨rfl, hleaf.unique hordered hother⟩
  rebuilds hundotted document hfree :=
    Value.grow_eq_pruned hordered (nodup_below key _) fun _ _ =>
      mem_below_iff hordered hundotted hfree

/-- Two leaves with one key, and a map without entries. -/
def colliding : Value :=
  .map [("a", .map [("b", .bool true)]), ("a.b", .bool false), ("c", .map [])]

theorem flattens_colliding : colliding.Ordered ∧ Flattens "config" colliding := by
  have hordered : colliding.Ordered := by
    refine ⟨by decide, ?_⟩
    simp [Value.OrderedEntries, Value.Ordered]
  exact ⟨hordered, flattens "config" hordered⟩

/-- The second of the two comes last. -/
example : (flattenInto "config" colliding SortedMap.empty).entries =
    [("config.a.b", .bool false)] := by rfl

end Run

end Logbook
