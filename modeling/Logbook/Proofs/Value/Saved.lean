import Logbook.Proofs.Json.Pretty
import Logbook.SortedMap.Lemmas
import Logbook.Value.Yaml

/-!
# What is left of a value that is saved

A value goes to a JSON document and comes back.  An infinite double and one that is not a
number have become null then, and an artifact is the path of its payload; anything else has not
changed, integers of any size among it (`Value.ofJson_toJson`).  What comes back is written as
before (`Value.toJson_asSaved`).  In between the document may be a text: then a double is what
its digits are read as (`Value.reloaded`).
-/

namespace Logbook

namespace Value

mutual

/-- The value without infinite doubles and those that are not a number; an artifact is the
path of its payload. -/
def asSaved : Value → Value
  | float number => if number.isFinite then float number else null
  | list items => list (itemsAsSaved items)
  | map entries => map (entriesAsSaved entries)
  | artifact handle => str handle.path.text
  | value => value

def itemsAsSaved : List Value → List Value
  | [] => []
  | item :: items => item.asSaved :: itemsAsSaved items

def entriesAsSaved : List (String × Value) → List (String × Value)
  | [] => []
  | (key, value) :: entries => (key, value.asSaved) :: entriesAsSaved entries

end

mutual

/-- Whether all doubles in a value are finite. -/
def isFinite : Value → Bool
  | float number => number.isFinite
  | list items => itemsAreFinite items
  | map entries => entriesAreFinite entries
  | _ => true

def itemsAreFinite : List Value → Bool
  | [] => true
  | item :: items => item.isFinite && itemsAreFinite items

def entriesAreFinite : List (String × Value) → Bool
  | [] => true
  | (_, value) :: entries => value.isFinite && entriesAreFinite entries

end

mutual

/-- A value that can be built: maps are in key order. -/
def Ordered : Value → Prop
  | list items => OrderedItems items
  | map entries => (entries.Pairwise fun left right => left.1 < right.1) ∧ OrderedEntries entries
  | _ => True

def OrderedItems : List Value → Prop
  | [] => True
  | item :: items => item.Ordered ∧ OrderedItems items

def OrderedEntries : List (String × Value) → Prop
  | [] => True
  | (_, value) :: entries => value.Ordered ∧ OrderedEntries entries

end

mutual

/-- A value that metadata can have: there are no artifacts, and maps are in key order. -/
def Plain : Value → Prop
  | list items => PlainItems items
  | map entries => (entries.Pairwise fun left right => left.1 < right.1) ∧ PlainEntries entries
  | artifact _ => False
  | _ => True

def PlainItems : List Value → Prop
  | [] => True
  | item :: items => item.Plain ∧ PlainItems items

def PlainEntries : List (String × Value) → Prop
  | [] => True
  | (_, value) :: entries => value.Plain ∧ PlainEntries entries

end

/-! ## Entries one by one -/

theorem entriesAsSaved_eq_map (entries : List (String × Value)) :
    entriesAsSaved entries = entries.map fun entry => (entry.1, entry.2.asSaved) := by
  induction entries with
  | nil => rfl
  | cons entry entries ih => rw [entriesAsSaved, ih, List.map_cons]

theorem plainEntries_iff {entries : List (String × Value)} :
    PlainEntries entries ↔ ∀ entry ∈ entries, entry.2.Plain := by
  induction entries with
  | nil => simp [PlainEntries]
  | cons entry entries ih => simp [PlainEntries, ih]

theorem orderedEntries_iff {entries : List (String × Value)} :
    OrderedEntries entries ↔ ∀ entry ∈ entries, entry.2.Ordered := by
  induction entries with
  | nil => simp [OrderedEntries]
  | cons entry entries ih => simp [OrderedEntries, ih]

mutual

theorem ordered_of_plain (value : Value) (hplain : value.Plain) : value.Ordered := by
  cases value with
  | list items => exact orderedItems_of_plain items hplain
  | map entries => exact ⟨hplain.1, orderedEntries_of_plain entries hplain.2⟩
  | artifact handle => cases hplain
  | _ => trivial

theorem orderedItems_of_plain (items : List Value) (hplain : PlainItems items) :
    OrderedItems items := by
  cases items with
  | nil => trivial
  | cons item items =>
    exact ⟨ordered_of_plain item hplain.1, orderedItems_of_plain items hplain.2⟩

theorem orderedEntries_of_plain (entries : List (String × Value))
    (hplain : PlainEntries entries) : OrderedEntries entries := by
  cases entries with
  | nil => trivial
  | cons entry entries =>
    exact ⟨ordered_of_plain entry.2 hplain.1, orderedEntries_of_plain entries hplain.2⟩

end

/-! ## From JSON back -/

theorem ofInteger_toInt (number : Int64) : ofInteger number.toInt = int number := by
  rw [ofInteger, Integer.int64?_toInt]

mutual

theorem exact_toJson (value : Value) : value.toJson.Exact := by
  cases value with
  | int number => exact Integer.fits64_toInt number
  | float number =>
    rw [toJson]
    split
    · assumption
    · trivial
  | list items => exact exactItems_toJsonItems items
  | map entries => exact exactMembers_toJsonMembers entries
  | _ => trivial

theorem exactItems_toJsonItems (items : List Value) : Json.ExactItems (toJsonItems items) := by
  cases items with
  | nil => trivial
  | cons item items => exact ⟨exact_toJson item, exactItems_toJsonItems items⟩

theorem exactMembers_toJsonMembers (entries : List (String × Value)) :
    Json.ExactMembers (toJsonMembers entries) := by
  cases entries with
  | nil => trivial
  | cons entry entries => exact ⟨exact_toJson entry.2, exactMembers_toJsonMembers entries⟩

end

mutual

/-- **A value comes back from JSON as it is saved.** -/
theorem ofJson_toJson (value : Value) (hordered : value.Ordered) :
    ofJson value.toJson = value.asSaved := by
  cases value with
  | int number => exact ofInteger_toInt number
  | float number =>
    rw [toJson, asSaved]
    split <;> rfl
  | list items =>
    rw [toJson, ofJson, asSaved, ofJsonItems_toJsonItems items hordered]
  | map entries =>
    obtain ⟨hsorted, hentries⟩ := hordered
    rw [toJson, ofJson, ofJsonMembers_toJsonMembers entries hentries, asSaved,
      entriesAsSaved_eq_map]
    -- The entries were in key order, so they are the entries of a map.
    have hmap := SortedMap.ofList_entries
      ((⟨entries, hsorted⟩ : SortedMap String Value).mapValues fun _ value => value.asSaved)
    exact congrArg (fun entries => map entries) (congrArg SortedMap.entries hmap)
  | artifact handle => rfl
  | _ => rfl

theorem ofJsonItems_toJsonItems (items : List Value) (hordered : OrderedItems items) :
    ofJsonItems (toJsonItems items) = itemsAsSaved items := by
  cases items with
  | nil => rfl
  | cons item items =>
    obtain ⟨hitem, hitems⟩ := hordered
    rw [toJsonItems, ofJsonItems, itemsAsSaved, ofJson_toJson item hitem,
      ofJsonItems_toJsonItems items hitems]

theorem ofJsonMembers_toJsonMembers (entries : List (String × Value))
    (hordered : OrderedEntries entries) :
    ofJsonMembers (toJsonMembers entries) = entriesAsSaved entries := by
  cases entries with
  | nil => rfl
  | cons entry entries =>
    obtain ⟨key, value⟩ := entry
    obtain ⟨hvalue, hentries⟩ := hordered
    rw [toJsonMembers, ofJsonMembers, entriesAsSaved, ofJson_toJson value hvalue,
      ofJsonMembers_toJsonMembers entries hentries]

end

mutual

/-- What comes back is written as before. -/
theorem toJson_asSaved (value : Value) : value.asSaved.toJson = value.toJson := by
  cases value with
  | float number =>
    rw [asSaved, toJson]
    split
    · next hfinite => rw [toJson, if_pos hfinite]
    · rfl
  | list items => rw [asSaved, toJson, toJson, toJsonItems_asSaved]
  | map entries => rw [asSaved, toJson, toJson, toJsonMembers_asSaved]
  | _ => rfl

theorem toJsonItems_asSaved (items : List Value) :
    toJsonItems (itemsAsSaved items) = toJsonItems items := by
  cases items with
  | nil => rfl
  | cons item items =>
    rw [itemsAsSaved, toJsonItems, toJsonItems, toJson_asSaved item, toJsonItems_asSaved items]

theorem toJsonMembers_asSaved (entries : List (String × Value)) :
    toJsonMembers (entriesAsSaved entries) = toJsonMembers entries := by
  cases entries with
  | nil => rfl
  | cons entry entries =>
    rw [entriesAsSaved, toJsonMembers, toJsonMembers, toJson_asSaved entry.2,
      toJsonMembers_asSaved entries]

end

/-! ## Through a text -/

/-- The value that is read from the text of the value. -/
def reloaded (value : Value) : Value := ofJson value.toJson.reread

theorem reloaded_asSaved (value : Value) : value.asSaved.reloaded = value.reloaded := by
  rw [reloaded, toJson_asSaved, reloaded]

/-- Where doubles are read as themselves, the text changes no more than the document does. -/
theorem reloaded_of_isFaithful {value : Value} (hordered : value.Ordered)
    (h : value.toJson.isFaithful = true) : value.reloaded = value.asSaved := by
  rw [reloaded, ((Json.isFaithful_iff _).mp h).2, ofJson_toJson value hordered]

/-! ## Values from JSON -/

theorem ordered_ofEntries {entries : List (String × Value)} (hordered : OrderedEntries entries) :
    (ofEntries entries).Ordered := by
  refine ⟨(SortedMap.ofList entries).sorted, orderedEntries_iff.mpr fun entry hentry => ?_⟩
  exact orderedEntries_iff.mp hordered entry (SortedMap.mem_of_mem_ofList hentry)

mutual

theorem ordered_ofJson (document : Json) : (ofJson document).Ordered := by
  cases document with
  | integer number =>
    show (ofInteger number).Ordered
    unfold ofInteger
    split <;> trivial
  | array items => exact orderedItems_ofJsonItems items
  | object members => exact ordered_ofEntries (orderedEntries_ofJsonMembers members)
  | _ => trivial

theorem orderedItems_ofJsonItems (items : List Json) : OrderedItems (ofJsonItems items) := by
  cases items with
  | nil => trivial
  | cons item items => exact ⟨ordered_ofJson item, orderedItems_ofJsonItems items⟩

theorem orderedEntries_ofJsonMembers (members : List (String × Json)) :
    OrderedEntries (ofJsonMembers members) := by
  cases members with
  | nil => trivial
  | cons member members =>
    exact ⟨ordered_ofJson member.2, orderedEntries_ofJsonMembers members⟩

end

/-! ## What saving changes -/

mutual

/-- Saving changes a value exactly if there is a double in it that is not finite. -/
theorem asSaved_eq_self_iff (value : Value) (hplain : value.Plain) :
    value.asSaved = value ↔ value.isFinite = true := by
  cases value with
  | float number =>
    rw [asSaved, isFinite]
    cases number.isFinite <;> simp
  | list items =>
    rw [asSaved, isFinite, list.injEq]
    exact itemsAsSaved_eq_self_iff items hplain
  | map entries =>
    rw [asSaved, isFinite, map.injEq]
    exact entriesAsSaved_eq_self_iff entries hplain.2
  | artifact handle => cases hplain
  | _ => simp [asSaved, isFinite]

theorem itemsAsSaved_eq_self_iff (items : List Value) (hplain : PlainItems items) :
    itemsAsSaved items = items ↔ itemsAreFinite items = true := by
  cases items with
  | nil => simp [itemsAsSaved, itemsAreFinite]
  | cons item items =>
    rw [itemsAsSaved, itemsAreFinite, List.cons.injEq, asSaved_eq_self_iff item hplain.1,
      itemsAsSaved_eq_self_iff items hplain.2, Bool.and_eq_true]

theorem entriesAsSaved_eq_self_iff (entries : List (String × Value))
    (hplain : PlainEntries entries) :
    entriesAsSaved entries = entries ↔ entriesAreFinite entries = true := by
  cases entries with
  | nil => simp [entriesAsSaved, entriesAreFinite]
  | cons entry entries =>
    obtain ⟨key, value⟩ := entry
    rw [entriesAsSaved, entriesAreFinite, List.cons.injEq, Prod.mk.injEq,
      asSaved_eq_self_iff value hplain.1, entriesAsSaved_eq_self_iff entries hplain.2,
      Bool.and_eq_true]
    simp

end

/-! ## Values from YAML -/

theorem plain_ofEntries {entries : List (String × Value)} (hplain : PlainEntries entries) :
    (ofEntries entries).Plain := by
  refine ⟨(SortedMap.ofList entries).sorted, plainEntries_iff.mpr fun entry hentry => ?_⟩
  exact plainEntries_iff.mp hplain entry (SortedMap.mem_of_mem_ofList hentry)

theorem plain_ofInteger (number : Int) : (ofInteger number).Plain := by
  unfold ofInteger
  split <;> trivial

mutual

theorem plain_ofYaml (tree : Yaml.Tree) : (ofYaml tree).Plain := by
  cases tree with
  | integer number => exact plain_ofInteger number
  | sequence items => exact plainItems_ofYamlItems items
  | mapping entries => exact plain_ofEntries (plainEntries_ofYamlEntries entries)
  | tagged tag content => exact plain_ofYaml content
  | _ => trivial

theorem plainItems_ofYamlItems (items : List Yaml.Tree) : PlainItems (ofYamlItems items) := by
  cases items with
  | nil => trivial
  | cons item items => exact ⟨plain_ofYaml item, plainItems_ofYamlItems items⟩

theorem plainEntries_ofYamlEntries (entries : List (Yaml.Tree × Yaml.Tree)) :
    PlainEntries (ofYamlEntries entries) := by
  cases entries with
  | nil => trivial
  | cons entry entries => exact ⟨plain_ofYaml entry.2, plainEntries_ofYamlEntries entries⟩

end

end Value

end Logbook
