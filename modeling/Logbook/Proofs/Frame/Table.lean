import Mathlib.Data.Finset.Dedup
import Mathlib.Data.Finset.Insert
import Logbook.Frame.Table
import Logbook.Proofs.Frame.Apply

/-!
# Tables lose no cell

The table of a frame has a row for each row and a column for each key of any row.  A cell is null
exactly where the row has no such field or has null there, so no value is lost for being of a kind
that the type of its column does not foresee (`Frame.table_presents`).

## Strategy

The type of a column is found value by value, but it is a function of the set of the kinds of the
values (`ColumnType.infer_eq_ofKinds`): what a fold of `join` gives is told by which kinds are in
the list, and by nothing else.  A type that has come out admits every kind that has gone in
(`ColumnType.join_infer`), and the cells of a type are null for no value of a kind that it admits.

What the rows have is what reading them all gave (`Row.relates_materialize`); the lazy views are a
table of the same make.
-/

namespace Logbook

namespace ColumnType

/-! ## The type of a column -/

/-- The type of a column whose values are of the given kinds. -/
def ofKinds (kinds : Finset ColumnType) : ColumnType :=
  if kinds = {boolean} then boolean
  else if kinds = {int64} then int64
  else if float64 ∈ kinds ∧ kinds ⊆ {int64, float64} then float64
  else text

/-- Integers and doubles. -/
def Numeric (kind : ColumnType) : Prop := kind = int64 ∨ kind = float64

variable {left right type kind first : ColumnType} {kinds : List ColumnType}

/-- Truth values and integers are types that only come from themselves. -/
theorem join_eq_narrow (htype : type = boolean ∨ type = int64) :
    join left right = type ↔ left = type ∧ right = type := by
  rcases htype with rfl | rfl <;> cases left <;> cases right <;> decide

theorem join_eq_float64 : join left right = float64 ↔
    (left = float64 ∨ right = float64) ∧ left.Numeric ∧ right.Numeric := by
  unfold Numeric
  cases left <;> cases right <;> decide

theorem numeric_join : (join left right).Numeric ↔ left.Numeric ∧ right.Numeric := by
  unfold Numeric
  cases left <;> cases right <;> decide

theorem foldl_join_eq_narrow (htype : type = boolean ∨ type = int64) :
    kinds.foldl join first = type ↔ ∀ kind ∈ first :: kinds, kind = type := by
  induction kinds generalizing first with
  | nil => simp
  | cons kind kinds ih => simp [ih, join_eq_narrow htype, and_assoc]

theorem foldl_join_eq_float64 : kinds.foldl join first = float64 ↔
    float64 ∈ first :: kinds ∧ ∀ kind ∈ first :: kinds, kind.Numeric := by
  induction kinds generalizing first with
  | nil =>
    have hnumeric : first = float64 → first.Numeric := .inr
    simpa [eq_comm] using hnumeric
  | cons kind kinds ih =>
    rw [List.foldl_cons, ih]
    simp only [List.mem_cons, forall_eq_or_imp, eq_comm (a := float64), join_eq_float64,
      numeric_join]
    tauto

/-- **The type of a column depends on nothing but the set of the kinds of its values.** -/
theorem infer_eq_ofKinds (values : List Value) :
    infer values = ofKinds (values.filterMap ofValue?).toFinset := by
  unfold infer
  cases values.filterMap ofValue? with
  | nil => rfl
  | cons first others =>
    have hnarrow {type : ColumnType} (htype : type = boolean ∨ type = int64) :
        others.foldl join first = type ↔ (first :: others).toFinset = {type} := by
      rw [foldl_join_eq_narrow htype, Finset.eq_singleton_iff_nonempty_unique_mem]
      simp
    have hfloat : others.foldl join first = float64 ↔
        float64 ∈ (first :: others).toFinset ∧ (first :: others).toFinset ⊆ {int64, float64} := by
      rw [foldl_join_eq_float64]
      simp [Finset.subset_iff, Numeric]
    unfold ofKinds
    split_ifs with hbooleans hintegers hnumbers
    · exact (hnarrow (.inl rfl)).mpr hbooleans
    · exact (hnarrow (.inr rfl)).mpr hintegers
    · exact hfloat.mpr hnumbers
    · cases htype : others.foldl join first with
      | boolean => exact absurd ((hnarrow (.inl rfl)).mp htype) hbooleans
      | int64 => exact absurd ((hnarrow (.inr rfl)).mp htype) hintegers
      | float64 => exact absurd (hfloat.mp htype) hnumbers
      | text => exact htype

/-- **A type that has come out admits every kind that has gone in.** -/
theorem join_foldl (h : kind ∈ first :: kinds) :
    join (kinds.foldl join first) kind = kinds.foldl join first := by
  cases htype : kinds.foldl join first with
  | boolean => rw [foldl_join_eq_narrow (.inl rfl)] at htype; rw [htype kind h]; rfl
  | int64 => rw [foldl_join_eq_narrow (.inr rfl)] at htype; rw [htype kind h]; rfl
  | float64 =>
    obtain rfl | rfl := (foldl_join_eq_float64.mp htype).2 kind h <;> rfl
  | text => cases kind <;> rfl

theorem join_infer {values : List Value} {value : Value} (hvalue : value ∈ values)
    (hkind : ofValue? value = some kind) : join (infer values) kind = infer values := by
  have hmem : kind ∈ values.filterMap ofValue? := List.mem_filterMap.mpr ⟨value, hvalue, hkind⟩
  unfold infer
  cases hkinds : values.filterMap ofValue? with
  | nil =>
    rw [hkinds] at hmem
    cases hmem
  | cons first others =>
    rw [hkinds] at hmem
    exact join_foldl hmem

/-! ## Cells -/

theorem ofValue?_eq_none_iff {value : Value} : ofValue? value = none ↔ value = .null := by
  cases value <;> simp [ofValue?]

theorem textOf?_eq_none_iff {value : Value} : textOf? value = none ↔ value = .null := by
  cases value <;> simp [textOf?]

theorem cell_null (type : ColumnType) : type.cell .null = .null := by
  cases type <;> rfl

/-- A value of a kind that the type admits is not lost. -/
theorem cell_eq_null_iff {value : Value}
    (h : ∀ kind, ofValue? value = some kind → join type kind = type) :
    type.cell value = .null ↔ value = .null := by
  constructor
  · intro hcell
    by_contra hvalue
    obtain ⟨kind, hkind⟩ := Option.ne_none_iff_exists'.mp (mt ofValue?_eq_none_iff.mp hvalue)
    have hjoin := h kind hkind
    cases type with
    | text =>
      obtain ⟨text, htext⟩ := Option.ne_none_iff_exists'.mp (mt textOf?_eq_none_iff.mp hvalue)
      rw [cell, htext] at hcell
      cases hcell
    | _ =>
      cases value <;> cases hkind <;>
        simp [cell, join, Value.toBool?, Value.toInt64?, Value.toBinary64?] at hcell hjoin
  · rintro rfl
    exact cell_null type

/-- Truth values and integers are put into a column of their own type as they are. -/
theorem cell_of_narrow (htype : type = boolean ∨ type = int64) {value : Value}
    (h : ∀ kind, ofValue? value = some kind → join type kind = type) : type.cell value = value := by
  cases hkind : ofValue? value with
  | none => rw [ofValue?_eq_none_iff.mp hkind, cell_null]
  | some kind =>
    obtain ⟨-, rfl⟩ := (join_eq_narrow htype).mp (h kind hkind)
    rcases htype with rfl | rfl <;> cases value <;> cases hkind <;> rfl

end ColumnType

/-! ## Columns -/

/-- A column for values, `none` where there is none: it has a cell for each of them, which is null
for nothing but null and for none; its type is the one of their kinds; and truth values and
integers stand in columns of their own as they are. -/
structure Column.Holds (column : Column) (values : List (Option Value)) : Prop where
  null_iff : List.Forall₂ (fun value cell => cell = .null ↔ value = none ∨ value = some .null)
    values column.cells
  type_eq : column.type =
    .ofKinds (values.filterMap fun value => value.bind ColumnType.ofValue?).toFinset
  exact (h : column.type = .boolean ∨ column.type = .int64) :
    column.cells = values.map fun value => value.getD .null

theorem Table.holds_column (documents : List Document) (key : String) :
    (column documents key).Holds (documents.map fun document => document.get? key) := by
  have hjoin (value : Value) (hvalue : some value ∈ documents.map fun document => document.get? key)
      (kind : ColumnType) (hkind : ColumnType.ofValue? value = some kind) :
      (column documents key).type.join kind = (column documents key).type := by
    refine ColumnType.join_infer (List.mem_filterMap.mpr ⟨some value, hvalue, rfl⟩) hkind
  refine ⟨?_, ?_, fun htype => ?_⟩
  · refine List.forall₂_map_right_iff.mpr (List.forall₂_same.mpr fun value hvalue => ?_)
    cases value with
    | none => simp
    | some value =>
      exact (ColumnType.cell_eq_null_iff (hjoin value hvalue)).trans
        ⟨fun hnull => .inr (congrArg some hnull),
          fun h => h.elim (absurd · (Option.some_ne_none value)) Option.some.inj⟩
  · refine (ColumnType.infer_eq_ofKinds _).trans ?_
    rw [List.filterMap_filterMap]
    rfl
  · refine List.map_congr_left fun value hvalue => ?_
    cases value with
    | none => rfl
    | some value => exact ColumnType.cell_of_narrow htype (hjoin value hvalue)

/-! ## Reading all fields -/

/-- On every later shelf the reading succeeds and leads to a later one. -/
def Reading.Loads {α : Type} (disk : Disk) (before : Shelf) (reading : Reading α) : Prop :=
  ∀ now, before.Later disk now →
    ∃ value after, reading disk now = (.ok value, after) ∧ now.Later disk after

namespace Reading

variable {α β : Type} {disk : Disk} {before : Shelf} {reading : Reading α}

theorem loads_pure (value : α) : Loads disk before (pure value) := fun now _ =>
  ⟨value, now, rfl, .refl⟩

theorem Loads.bind {next : α → Reading β} (h : Loads disk before reading)
    (hnext : ∀ value, Loads disk before (next value)) : Loads disk before (reading >>= next) := by
  intro now hnow
  obtain ⟨value, between, hvalue, hbetween⟩ := h now hnow
  obtain ⟨result, after, hresult, hafter⟩ := hnext value between (hnow.trans hbetween)
  exact ⟨result, after, (bind_of_ok hvalue).trans hresult, hbetween.trans hafter⟩

theorem loads_mapM {step : α → Reading β} {items : List α}
    (h : ∀ item ∈ items, Loads disk before (step item)) : Loads disk before (items.mapM step) := by
  induction items with
  | nil => exact loads_pure []
  | cons item items ih =>
    obtain ⟨hitem, hitems⟩ := List.forall_mem_cons.mp h
    rw [List.mapM_cons]
    exact hitem.bind fun first => (ih hitems).bind fun rest => loads_pure (first :: rest)

end Reading

namespace Row

variable {disk : Disk} {before after : Shelf} {row : Row} {key : String}

/-- What a row has at a key, if it has the key, and `none` if it has not. -/
def Has (shows : String → Value → Prop) (row : Row) (key : String) : Option Value → Prop
  | none => key ∉ row.keys
  | some value => key ∈ row.keys ∧ shows key value

theorem Has.imp {shows others : String → Value → Prop} {found : Option Value}
    (h : row.Has shows key found) (himp : ∀ value, shows key value → others key value) :
    row.Has others key found := by
  cases found with
  | none => exact h
  | some value => exact ⟨h.1, himp value h.2⟩

/-- Fields of a row are read as its cells at their keys. -/
theorem mapM_readSlot (row : Row) (fields : List (String × Slot))
    (h : fields ⊆ row.slots.entries) :
    (fields.mapM fun (key, slot) => do return (key, ← readSlot key slot) :
      Reading (List (String × Value))) =
    (fields.map Prod.fst).mapM fun key => do return (key, ← row.cell key) := by
  induction fields with
  | nil => rfl
  | cons field fields ih =>
    obtain ⟨hfield, hmore⟩ := List.cons_subset.mp h
    have hcell : row.cell field.1 = readSlot field.1 field.2 := by
      rw [cell, get?, SortedMap.get?_eq_some_iff.mpr hfield]
      simp
    rw [List.mapM_cons, List.map_cons, List.mapM_cons, ih hmore, hcell]

theorem materialize_eq (row : Row) : row.materialize = do
    let fields ← row.keys.mapM fun key => do return (key, ← row.cell key)
    return SortedMap.ofList fields := by
  unfold materialize
  rw [mapM_readSlot row _ (List.Subset.refl _)]
  rfl

theorem relates_materialize (disk : Disk) :
    Reading.Relates disk
      (fun before after (row : Row) (document : Document) =>
        ∀ key, row.Has (row.Showed disk before after) key (document.get? key))
      materialize := by
  intro row document before after hrun
  rw [materialize_eq] at hrun
  obtain ⟨fields, between, hfields, hpure⟩ := Reading.bind_eq_ok.mp hrun
  cases hpure
  have hfield : Reading.Relates disk (fun before after key (field : String × Value) =>
      field.1 = key ∧ row.Showed disk before after key field.2)
      fun key => do return (key, ← row.cell key) := by
    intro key field now after hfield
    obtain ⟨value, between, hvalue, hpure⟩ := Reading.bind_eq_ok.mp hfield
    cases hpure
    obtain ⟨hlater, hshowed⟩ := relates_cell disk row key value now after hvalue
    exact ⟨hlater, rfl, hshowed⟩
  obtain ⟨hlater, hall⟩ := hfield.mapM (fun _ _ _ _ _ _ hbefore hafter h =>
    ⟨h.1, h.2.between hbefore hafter⟩) _ _ _ _ hfields
  have hkeys : row.keys = fields.map Prod.fst := by
    have hsame := List.forall₂_map_right_iff.mpr (hall.imp fun _ _ h => h.1.symm)
    rwa [List.forall₂_eq_eq_eq] at hsame
  rw [hkeys, List.forall₂_map_left_iff, List.forall₂_same] at hall
  refine ⟨hlater, fun key => ?_⟩
  cases hget : (SortedMap.ofList fields).get? key with
  | none =>
    intro hkey
    obtain ⟨value, hvalue⟩ := SortedMap.exists_get?_ofList (hkeys ▸ hkey)
    cases hget.symm.trans hvalue
  | some value =>
    have hmem := SortedMap.mem_of_get?_ofList hget
    exact ⟨hkeys ▸ List.mem_map_of_mem hmem, (hall _ hmem).2⟩

theorem loads_materialize
    (h : ∀ key ∈ row.keys, ∀ now, before.Later disk now →
      (row.get? key disk now).1.isOk = true) : Reading.Loads disk before row.materialize := by
  have hget (key : String) (hkey : key ∈ row.keys) :
      Reading.Loads disk before (row.get? key) := by
    intro now hnow
    obtain ⟨value, after, hvalue⟩ := Reading.exists_of_isOk (h key hkey now hnow)
    exact ⟨value, after, hvalue, Shelf.later_get? hvalue⟩
  rw [materialize_eq]
  refine (Reading.loads_mapM fun key hkey => ?_).bind fun fields => Reading.loads_pure _
  exact ((hget key hkey).bind fun value => Reading.loads_pure _).bind fun value =>
    Reading.loads_pure (key, value)

theorem loads_release (disk : Disk) (before : Shelf) (row : Row) :
    Reading.Loads disk before row.release := fun now _ =>
  ⟨(), (row.release disk now).2, rfl, .release row .refl⟩

end Row

/-! ## Tables -/

/-- A table of the rows of a frame, where each row shows values at its keys: it has a row for each
of them, even without columns, and one column for each key of any of them, and each column holds
what the rows have at the key. -/
structure Table.Presents (table : Table) (frame : Frame) (shows : Row → String → Value → Prop) :
    Prop where
  size : table.size = frame.size
  names_nodup : (table.columns.map Column.name).Nodup
  mem_names_iff (key : String) :
    key ∈ table.columns.map Column.name ↔ ∃ row ∈ frame.rows, key ∈ row.keys
  columns (column : Column) (h : column ∈ table.columns) :
    ∃ values, List.Forall₂ (fun row value => row.Has (shows row) column.name value)
      frame.rows values ∧ column.Holds values

theorem nodup_eraseDups {α : Type} [BEq α] [LawfulBEq α] (items : List α) :
    items.eraseDups.Nodup := by
  induction hlength : items.length using Nat.strongRecOn generalizing items with
  | ind length ih =>
    subst hlength
    cases items with
    | nil => exact List.nodup_nil
    | cons item items =>
      rw [List.eraseDups_cons, List.nodup_cons, List.mem_eraseDups]
      have hfewer := Nat.lt_succ_of_le (List.length_filter_le (fun other => !other == item) items)
      exact ⟨by simp, ih _ hfewer _ rfl⟩

namespace Frame

variable {disk : Disk} {before : Shelf} {frame : Frame}

theorem presents_ofDocuments {documents : List Document} {shows : Row → String → Value → Prop}
    (h : List.Forall₂ (fun row document => ∀ key, row.Has (shows row) key (document.get? key))
      frame.rows documents) : (Table.ofDocuments frame.keys documents).Presents frame shows := by
  have hnames : (Table.ofDocuments frame.keys documents).columns.map Column.name = frame.keys := by
    rw [Table.ofDocuments, List.map_map]
    exact List.map_id frame.keys
  refine ⟨h.length_eq.symm, ?_, fun key => ?_, fun column hcolumn => ?_⟩
  · rw [hnames]
    exact nodup_eraseDups _
  · rw [hnames, keys, List.mem_eraseDups, List.mem_flatMap]
  · obtain ⟨key, -, rfl⟩ := List.mem_map.mp hcolumn
    refine ⟨_, ?_, Table.holds_column documents key⟩
    exact List.forall₂_map_right_iff.mpr (h.imp fun _ _ h => h key)

/-- **A table loses no cell.**  If the fields of all rows can be read, there is a table; and a
table presents what the rows show when they are read, or in their lazy views. -/
theorem table_presents (frame : Frame) (disk : Disk) (before : Shelf) :
    ((∀ row ∈ frame.rows, ∀ key ∈ row.keys, ∀ now, before.Later disk now →
        (row.get? key disk now).1.isOk = true) →
      ∃ table after, frame.table disk before = (.ok table, after)) ∧
    (∀ table after, frame.table disk before = (.ok table, after) →
      table.Presents frame fun row => row.Showed disk before after) ∧
    (frame.viewTable before).Presents frame fun row key value =>
      (row.view before).get? key = some value := by
  refine ⟨fun hloads => ?_, fun table after htable => ?_, ?_⟩
  · have hscan : Reading.Loads disk before (frame.scan Row.materialize) := by
      refine Reading.loads_mapM fun row hrow => ?_
      refine (Row.loads_materialize (hloads row hrow)).bind fun document => ?_
      exact (Row.loads_release disk before row).bind fun _ => Reading.loads_pure document
    obtain ⟨table, after, htable, -⟩ := hscan.bind
      (fun documents => Reading.loads_pure (Table.ofDocuments frame.keys documents)) before .refl
    exact ⟨table, after, htable⟩
  · obtain ⟨documents, between, hscan, hpure⟩ := Reading.bind_eq_ok.mp htable
    cases hpure
    have hwidens : Shelf.Widens disk fun before after (row : Row) (document : Document) =>
        ∀ key, row.Has (row.Showed disk before after) key (document.get? key) :=
      fun _ _ _ _ _ _ hbefore hafter h key => (h key).imp fun _ hshowed =>
        hshowed.between hbefore hafter
    exact presents_ofDocuments (relates_scan (Row.relates_materialize disk) hwidens frame
      documents before after hscan).2
  · refine presents_ofDocuments (List.forall₂_map_right_iff.mpr (List.forall₂_same.mpr ?_))
    intro row hrow key
    have hkeys : (row.view before).keys = row.keys := SortedMap.keys_mapValues _ _
    cases hget : (row.view before).get? key with
    | none =>
      have hkey := SortedMap.get?_eq_none_iff.mp hget
      rwa [hkeys] at hkey
    | some value =>
      exact ⟨hkeys ▸ SortedMap.mem_keys.mpr ⟨value, SortedMap.mem_of_get? hget⟩, hget⟩

/-- An integer among doubles, a null among truth values, and a key that one row has. -/
theorem table_presents_of_three_rows :
    let frame : Frame := ⟨[
      Row.ofFields (some 1) [("config.lr", .int 1), ("info.ok", .bool true)],
      Row.ofFields (some 2) [("config.lr", .float (.ofDecimal false 5 (-1))), ("info.ok", .null)],
      Row.ofFields (some 3) [("note", .list [.int 7])]]⟩
    let disk := Disk.empty ⟨"/runs"⟩
    ∃ table after, frame.table disk {} = (.ok table, after) ∧
      (table.Presents frame fun row => row.Showed disk {} after) ∧
      table.columns.map (fun column => (column.name, column.type, column.cells.map Value.render)) =
        [("config.lr", .float64, ["1.0", "0.5", "null"]),
          ("info.ok", .boolean, ["true", "null", "null"]),
          ("note", .text, ["null", "null", "[7]"])] := by
  intro frame disk
  have hloads : ∀ row ∈ frame.rows, ∀ key ∈ row.keys, ∀ now, ({} : Shelf).Later disk now →
      (row.get? key disk now).1.isOk = true := by
    intro row hrow key _ now _
    have hmade : ∃ id fields, row.Made id fields := by
      simp only [frame, List.mem_cons, List.not_mem_nil, or_false] at hrow
      obtain rfl | rfl | rfl := hrow <;> exact ⟨_, _, Row.made_ofFields _ _⟩
    obtain ⟨_, fields, hmade⟩ := hmade
    have hslot := hmade.field key
    cases hfind : fields.reverse.find? fun field => field.1 = key with
    | none =>
      rw [hfind] at hslot
      rw [Row.get?_of_none hslot]
      rfl
    | some field =>
      rw [hfind] at hslot
      rw [Row.get?_of_some hslot]
      rfl
  obtain ⟨hsucceeds, hpresents, -⟩ := table_presents frame disk {}
  obtain ⟨table, after, htable⟩ := hsucceeds hloads
  have hcolumns : ((frame.table disk {}).1.map fun table => table.columns.map fun column =>
      (column.name, column.type, column.cells.map Value.render)).toOption =
        some [("config.lr", .float64, ["1.0", "0.5", "null"]),
          ("info.ok", .boolean, ["true", "null", "null"]),
          ("note", .text, ["null", "null", "[7]"])] := by
    decide +kernel
  rw [htable] at hcolumns
  exact ⟨table, after, htable, hpresents table after htable, Option.some.inj hcolumns⟩

end Frame

end Logbook
