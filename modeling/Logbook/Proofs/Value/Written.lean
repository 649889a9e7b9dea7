import Logbook.Proofs.Value.Order
import Logbook.Proofs.Value.Saved

/-!
# Values that have been written down

Neither JSON nor YAML has a spelling for a not-a-number with a sign: JSON has none for any
not-a-number, and YAML has `.nan`, without a sign.  So the not-a-numbers in a value that was
read from either are positive (`Value.nanSign_of_writtenIn`), and such values are in a total
order.
-/

namespace Logbook

namespace Value

theorem nanSignOfItems_iff {negative : Bool} {items : List Value} :
    NaNSignOfItems negative items ↔ ∀ item ∈ items, item.NaNSign negative := by
  induction items with
  | nil => simp [NaNSignOfItems]
  | cons item items ih => simp [NaNSignOfItems, ih]

theorem nanSignOfEntries_iff {negative : Bool} {entries : List (String × Value)} :
    NaNSignOfEntries negative entries ↔ ∀ entry ∈ entries, entry.2.NaNSign negative := by
  induction entries with
  | nil => simp [NaNSignOfEntries]
  | cons entry entries ih => simp [NaNSignOfEntries, ih]

theorem nanSign_ofEntries {negative : Bool} {entries : List (String × Value)}
    (h : NaNSignOfEntries negative entries) : (ofEntries entries).NaNSign negative := by
  rw [nanSignOfEntries_iff] at h
  apply nanSignOfEntries_iff.mpr
  intro entry hentry
  exact h entry (SortedMap.mem_of_mem_ofList hentry)

theorem nanSign_ofInteger (negative : Bool) (number : Int) :
    (ofInteger number).NaNSign negative := by
  unfold ofInteger
  split
  · trivial
  · intro hnan
    rw [Binary64.isNaN_ofInt] at hnan
    cases hnan

theorem nanSign_of_isFinite {negative : Bool} {number : Binary64} (h : number.isFinite = true) :
    (float number).NaNSign negative := by
  intro hnan
  rw [Binary64.isNaN_of_isFinite h] at hnan
  cases hnan

end Value

/-! ## JSON -/

namespace Json

theorem isFinite_of_double? {numeral : Numeral} {number : Binary64}
    (h : numeral.double? = some number) : number.isFinite = true := by
  unfold Numeral.double? at h
  dsimp only at h
  generalize scale _ _ = double at h
  split at h
  · next hfinite =>
    cases h
    split
    · cases double with
      | finite => rfl
      | _ => cases hfinite
    · exact hfinite
  · cases h

theorem exact_of_value? {numeral : Numeral} {document : Json}
    (h : numeral.value? = some document) : document.Exact := by
  unfold Numeral.value? at h
  dsimp only at h
  generalize (if numeral.negative = true then -(Decimal.ofDigits numeral.whole : Int)
    else Decimal.ofDigits numeral.whole) = number at h
  split at h
  · next hinteger =>
    cases h
    simp only [Bool.and_eq_true] at hinteger
    exact hinteger.1.2
  · obtain ⟨number, hnumber, rfl⟩ := Option.map_eq_some_iff.mp h
    exact isFinite_of_double? hnumber

namespace Draft

mutual

theorem exact_of_resolve? {depth : Nat} (draft : Draft) {document : Json}
    (h : draft.resolve? depth = some document) : document.Exact := by
  cases draft with
  | number numeral => exact exact_of_value? h
  | string pieces =>
    obtain ⟨text, -, rfl⟩ := Option.map_eq_some_iff.mp h
    trivial
  | array items =>
    rw [resolve?] at h
    split at h
    · cases h
    · obtain ⟨documents, hitems, rfl⟩ := Option.map_eq_some_iff.mp h
      exact exact_of_resolveItems? items hitems
  | object members =>
    rw [resolve?] at h
    split at h
    · cases h
    · obtain ⟨documents, hmembers, rfl⟩ := Option.map_eq_some_iff.mp h
      exact exact_of_resolveMembers? members hmembers
  | _ =>
    cases h
    trivial

theorem exact_of_resolveItems? {depth : Nat} (items : List Draft) {documents : List Json}
    (h : resolveItems? depth items = some documents) : ExactItems documents := by
  cases items with
  | nil =>
    cases h
    trivial
  | cons item items =>
    obtain ⟨first, hfirst, hrest⟩ := Option.bind_eq_some_iff.mp h
    obtain ⟨rest, hmore, hdocuments⟩ := Option.bind_eq_some_iff.mp hrest
    cases hdocuments
    exact ⟨exact_of_resolve? item hfirst, exact_of_resolveItems? items hmore⟩

theorem exact_of_resolveMembers? {depth : Nat} (members : List (List Piece × Draft))
    {documents : List (String × Json)} (h : resolveMembers? depth members = some documents) :
    ExactMembers documents := by
  cases members with
  | nil =>
    cases h
    trivial
  | cons member members =>
    obtain ⟨key, -, hrest⟩ := Option.bind_eq_some_iff.mp h
    obtain ⟨first, hfirst, hrest⟩ := Option.bind_eq_some_iff.mp hrest
    obtain ⟨rest, hmore, hdocuments⟩ := Option.bind_eq_some_iff.mp hrest
    cases hdocuments
    exact ⟨exact_of_resolve? member.2 hfirst, exact_of_resolveMembers? members hmore⟩

end

end Draft

/-- Every number that is read is an integer of 64 bits or a finite double. -/
theorem exact_of_read {text : String} {document : Json} (h : read text = some document) :
    document.Exact := by
  obtain ⟨draft, -, hresolve⟩ := Option.bind_eq_some_iff.mp h
  exact Draft.exact_of_resolve? draft hresolve

end Json

namespace Value

mutual

theorem nanSign_ofJson {negative : Bool} (document : Json) (h : document.Exact) :
    (ofJson document).NaNSign negative := by
  cases document with
  | integer number => exact nanSign_ofInteger negative number
  | float number => exact nanSign_of_isFinite h
  | array items => exact nanSign_ofJsonItems items h
  | object members => exact nanSign_ofEntries (nanSign_ofJsonMembers members h)
  | _ => trivial

theorem nanSign_ofJsonItems {negative : Bool} (items : List Json) (h : Json.ExactItems items) :
    NaNSignOfItems negative (ofJsonItems items) := by
  cases items with
  | nil => trivial
  | cons item items => exact ⟨nanSign_ofJson item h.1, nanSign_ofJsonItems items h.2⟩

theorem nanSign_ofJsonMembers {negative : Bool} (members : List (String × Json))
    (h : Json.ExactMembers members) : NaNSignOfEntries negative (ofJsonMembers members) := by
  cases members with
  | nil => trivial
  | cons member members => exact ⟨nanSign_ofJson member.2 h.1, nanSign_ofJsonMembers members h.2⟩

end

end Value

/-! ## YAML -/

namespace Yaml

namespace Tree

mutual

/-- There is no negative not-a-number in a tree, its keys aside. -/
def Unsigned : Tree → Prop
  | float number => number.isNaN = true → number.isNegative = false
  | sequence items => UnsignedItems items
  | mapping entries => UnsignedEntries entries
  | tagged _ content => content.Unsigned
  | _ => True

def UnsignedItems : List Tree → Prop
  | [] => True
  | item :: items => item.Unsigned ∧ UnsignedItems items

def UnsignedEntries : List (Tree × Tree) → Prop
  | [] => True
  | (_, value) :: entries => value.Unsigned ∧ UnsignedEntries entries

end

theorem unsignedItems_iff {items : List Tree} :
    UnsignedItems items ↔ ∀ item ∈ items, item.Unsigned := by
  induction items with
  | nil => simp [UnsignedItems]
  | cons item items ih => simp [UnsignedItems, ih]

theorem unsignedEntries_iff {entries : List (Tree × Tree)} :
    UnsignedEntries entries ↔ ∀ entry ∈ entries, entry.2.Unsigned := by
  induction entries with
  | nil => simp [UnsignedEntries]
  | cons entry entries ih => simp [UnsignedEntries, ih]

end Tree

theorem unsigned_of_float? {text : String} {number : Binary64} (h : float? text = some number) :
    (Tree.float number).Unsigned := by
  unfold float? at h
  split at h
  · cases h
    exact fun hnan => nomatch hnan
  · split at h
    · cases h
      exact fun hnan => nomatch hnan
    · split at h
      · cases h
        exact fun _ => rfl
      · have hfinite := (Option.filter_eq_some_iff.mp h).2
        intro hnan
        rw [Binary64.isNaN_of_isFinite hfinite] at hnan
        cases hnan

theorem unsigned_floatOrText (text : String) : (floatOrText text).Unsigned := by
  unfold floatOrText
  split
  · trivial
  · split
    · next hnumber => exact unsigned_of_float? hnumber
    · trivial

theorem unsigned_of_plain? {text : String} {tree : Tree} (h : plain? text = some tree) :
    tree.Unsigned := by
  unfold plain? at h
  split at h
  · cases h
    trivial
  · split at h
    · cases h
      trivial
    · split at h
      · split at h
        · cases h
          trivial
        · split at h
          · cases h
          · cases h
            exact unsigned_floatOrText text
      · cases h
        exact unsigned_floatOrText text

theorem unsigned_of_tagged? {tag : Octets} {text : String} {tree : Tree}
    (h : tagged? tag text = some tree) : tree.Unsigned := by
  unfold tagged? at h
  split at h
  · obtain ⟨truth, -, rfl⟩ := Option.map_eq_some_iff.mp h
    trivial
  · split at h
    · obtain ⟨number, -, htree⟩ := Option.bind_eq_some_iff.mp h
      split at htree
      · cases htree
        trivial
      · cases htree
    · split at h
      · obtain ⟨number, hnumber, rfl⟩ := Option.map_eq_some_iff.mp h
        exact unsigned_of_float? hnumber
      · split at h
        · split at h
          · cases h
            trivial
          · cases h
        · cases h
          trivial

theorem unsigned_of_scalar? {properties : Properties} {text : String} {style : ScalarStyle}
    {tree : Tree} (h : scalar? properties text style = some tree) : tree.Unsigned := by
  have huntagged : ∀ tree, (if style == .plain then plain? text else some (.text text)) =
      some tree → tree.Unsigned := by
    intro tree htree
    split at htree
    · exact unsigned_of_plain? htree
    · cases htree
      trivial
  unfold scalar? at h
  dsimp only at h
  split at h
  · exact huntagged tree h
  · split at h
    · obtain ⟨content, hcontent, rfl⟩ := Option.map_eq_some_iff.mp h
      exact huntagged content hcontent
    · split at h
      · exact huntagged tree h
      · exact unsigned_of_tagged? h

theorem unsigned_underTag {properties : Properties} {tree : Tree} (h : tree.Unsigned) :
    (underTag properties tree).Unsigned := by
  unfold underTag
  split
  · exact h
  · exact h

/-- What every step keeps holds at the end. -/
theorem of_foldlM_eq_some {σ α : Type} {step : σ → α → Option σ} {P : σ → Prop}
    (hstep : ∀ state item next, P state → step state item = some next → P next)
    {items : List α} {first last : σ} (hfirst : P first)
    (hfold : items.foldlM step first = some last) : P last := by
  induction items generalizing first with
  | nil =>
    cases hfold
    exact hfirst
  | cons item items ih =>
    rw [List.foldlM_cons] at hfold
    obtain ⟨next, hnext, hrest⟩ := Option.bind_eq_some_iff.mp hfold
    exact ih (hstep first item next hfirst hnext) hrest

theorem unsigned_of_tree? {anchors : Anchors} {depth : Nat} {followed after : Followed}
    {node : Node Nat} {tree : Tree} (h : tree? anchors depth followed node = some (tree, after)) :
    tree.Unsigned := by
  induction depth generalizing followed after node tree with
  | zero =>
    rw [tree?] at h
    obtain ⟨⟨target, reached⟩, -, htree⟩ := Option.bind_eq_some_iff.mp h
    cases target with
    | scalar properties text style =>
      obtain ⟨found, hscalar, heq⟩ := Option.map_eq_some_iff.mp htree
      cases heq
      exact unsigned_of_scalar? hscalar
    | _ => cases htree
  | succ depth ih =>
    rw [tree?] at h
    obtain ⟨⟨target, reached⟩, -, htree⟩ := Option.bind_eq_some_iff.mp h
    rcases target with number | ⟨properties, text, style⟩ | ⟨properties, items⟩ |
      ⟨properties, entries⟩
    · cases htree
    · obtain ⟨found, hscalar, heq⟩ := Option.map_eq_some_iff.mp htree
      cases heq
      exact unsigned_of_scalar? hscalar
    · obtain ⟨⟨trees, last⟩, hfold, hpure⟩ := Option.bind_eq_some_iff.mp htree
      cases hpure
      have htrees : ∀ tree ∈ trees, tree.Unsigned := by
        refine of_foldlM_eq_some (P := fun state => ∀ tree ∈ state.1, tree.Unsigned) ?_ ?_ hfold
        · rintro ⟨before, passed⟩ item next hbefore hnext
          obtain ⟨⟨made, later⟩, hmade, heq⟩ := Option.map_eq_some_iff.mp hnext
          cases heq
          exact List.forall_mem_cons.mpr ⟨ih hmade, hbefore⟩
        · simp
      apply unsigned_underTag
      apply Tree.unsignedItems_iff.mpr
      intro found hfound
      exact htrees found (List.mem_reverse.mp hfound)
    · obtain ⟨⟨trees, last⟩, hfold, hpure⟩ := Option.bind_eq_some_iff.mp htree
      cases hpure
      have htrees : ∀ entry ∈ trees, entry.2.Unsigned := by
        refine of_foldlM_eq_some (P := fun state => ∀ entry ∈ state.1, entry.2.Unsigned) ?_ ?_ hfold
        · rintro ⟨before, passed⟩ entry next hbefore hnext
          obtain ⟨⟨key, later⟩, -, hrest⟩ := Option.bind_eq_some_iff.mp hnext
          obtain ⟨⟨value, latest⟩, hvalue, hadded⟩ := Option.bind_eq_some_iff.mp hrest
          obtain ⟨more, hmore, heq⟩ := Option.map_eq_some_iff.mp hadded
          cases heq
          unfold addPair? at hmore
          split at hmore
          · cases hmore
          · cases hmore
            exact List.forall_mem_cons.mpr ⟨ih hvalue, hbefore⟩
        · simp
      apply unsigned_underTag
      apply Tree.unsignedEntries_iff.mpr
      intro found hfound
      exact htrees found (List.mem_reverse.mp hfound)

theorem unsigned_of_read {text : String} {tree : Tree} (h : read text = some tree) :
    tree.Unsigned := by
  obtain ⟨document, -, htree⟩ := Option.bind_eq_some_iff.mp h
  obtain ⟨⟨_, after⟩, hread, rfl⟩ := Option.map_eq_some_iff.mp htree
  exact unsigned_of_tree? hread

end Yaml

namespace Value

mutual

theorem nanSign_ofYaml (tree : Yaml.Tree) (h : tree.Unsigned) :
    (ofYaml tree).NaNSign false := by
  cases tree with
  | integer number => exact nanSign_ofInteger false number
  | float number => exact h
  | sequence items => exact nanSign_ofYamlItems items h
  | mapping entries => exact nanSign_ofEntries (nanSign_ofYamlEntries entries h)
  | tagged tag content => exact nanSign_ofYaml content h
  | _ => trivial

theorem nanSign_ofYamlItems (items : List Yaml.Tree) (h : Yaml.Tree.UnsignedItems items) :
    NaNSignOfItems false (ofYamlItems items) := by
  cases items with
  | nil => trivial
  | cons item items => exact ⟨nanSign_ofYaml item h.1, nanSign_ofYamlItems items h.2⟩

theorem nanSign_ofYamlEntries (entries : List (Yaml.Tree × Yaml.Tree))
    (h : Yaml.Tree.UnsignedEntries entries) : NaNSignOfEntries false (ofYamlEntries entries) := by
  cases entries with
  | nil => trivial
  | cons entry entries => exact ⟨nanSign_ofYaml entry.2 h.1, nanSign_ofYamlEntries entries h.2⟩

end

/-- A value that is read from a text. -/
inductive WrittenIn (text : String) : Value → Prop
  | yaml {tree : Yaml.Tree} (h : Yaml.read text = some tree) : WrittenIn text (ofYaml tree)
  | json {document : Json} (h : Json.read text = some document) : WrittenIn text (ofJson document)

/-- No value that is read has a negative not-a-number. -/
theorem nanSign_of_writtenIn {text : String} {value : Value} (h : value.WrittenIn text) :
    value.NaNSign false := by
  cases h with
  | yaml hread => exact nanSign_ofYaml _ (Yaml.unsigned_of_read hread)
  | json hread => exact nanSign_ofJson _ (Json.exact_of_read hread)

end Value

end Logbook
