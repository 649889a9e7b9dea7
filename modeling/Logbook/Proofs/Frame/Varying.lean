import Logbook.Proofs.Frame.Table
import Logbook.Proofs.Value.Meaning

/-!
# Columns that vary

`Frame.varying` compares every row with the first one, at the keys of the other row.  No column is
listed twice, and which columns are listed does not depend on the order of the rows, but for one
kind of column.  A column that some rows have and others lack, and in which all rows that have it
agree (`Frame.Patchy`), is listed exactly if the row that comes first lacks it
(`Frame.varying_of_perm`).

## Strategy

Being the same is an equivalence, so two values that are not the same cannot both be the same as
that of the first row.  Hence a column is listed exactly if two rows disagree in it, wherever they
stand, or if the first row lacks it and another one has it (`Frame.mem_varying_iff`).
-/

namespace Logbook

namespace Frame

variable {shelf : Shelf} {frame other : Frame} {key beginning : String}

/-! ## What the rows have in a column -/

/-- Some row has a value in a column. -/
def HasValue (shelf : Shelf) (frame : Frame) (key : String) (value : Value) : Prop :=
  ∃ row ∈ frame.rows, (row.view shelf).get? key = some value

/-- Two rows have values in a column that are not the same. -/
def Disagrees (shelf : Shelf) (frame : Frame) (key : String) : Prop :=
  ∃ left right, frame.HasValue shelf key left ∧ frame.HasValue shelf key right ∧
    left.same right = false

/-- Some rows have a column and others lack it, and all that have it agree. -/
structure Patchy (shelf : Shelf) (frame : Frame) (key : String) : Prop where
  had : ∃ value, frame.HasValue shelf key value
  lacked : ∃ row ∈ frame.rows, (row.view shelf).get? key = none
  agrees : ¬frame.Disagrees shelf key

/-- The row that comes first lacks a column. -/
def FirstLacks (shelf : Shelf) (frame : Frame) (key : String) : Prop :=
  ∃ first ∈ frame.rows.head?, (first.view shelf).get? key = none

theorem hasValue_iff_of_perm (hperm : frame.rows.Perm other.rows) {value : Value} :
    frame.HasValue shelf key value ↔ other.HasValue shelf key value := by
  simp only [HasValue, hperm.mem_iff]

theorem disagrees_iff_of_perm (hperm : frame.rows.Perm other.rows) :
    frame.Disagrees shelf key ↔ other.Disagrees shelf key := by
  simp only [Disagrees, hasValue_iff_of_perm hperm]

theorem get?_view_ofFields (id : Option RunId) (fields : List (String × Value)) :
    ((Row.ofFields id fields).view shelf).get? key =
      (fields.reverse.find? fun field => field.1 = key).map Prod.snd := by
  rw [Row.view, SortedMap.get?_mapValues, (Row.made_ofFields id fields).field, Option.map_map]
  rfl

/-! ## Comparing with the first row -/

/-- A value that is not the same as the one of the first row, if that has one. -/
def Deviates (reference : Document) (key : String) (value : Value) : Prop :=
  ∀ given, reference.get? key = some given → given.same value = false

theorem mem_differing_iff {reference row : Document} :
    key ∈ differing reference row ↔
      ∃ value, row.get? key = some value ∧ Deviates reference key value := by
  simp only [differing, List.mem_map, List.mem_filter, Prod.exists, exists_and_right,
    exists_eq_right, SortedMap.get?_eq_some_iff]
  refine exists_congr fun value => and_congr_right fun _ => ?_
  unfold Deviates
  cases reference.get? key <;> simp

/-- The first row does not deviate from itself, so a row that deviates is one of the others. -/
theorem exists_differing_iff {first : Row} {rest : List Row} :
    (∃ row ∈ rest, key ∈ differing (first.view shelf) (row.view shelf)) ↔
      ∃ value, HasValue shelf ⟨first :: rest⟩ key value ∧ Deviates (first.view shelf) key value := by
  constructor
  · rintro ⟨row, hrow, hdiffers⟩
    obtain ⟨value, hvalue, hdeviates⟩ := mem_differing_iff.mp hdiffers
    exact ⟨value, ⟨row, List.mem_cons_of_mem _ hrow, hvalue⟩, hdeviates⟩
  · rintro ⟨value, ⟨row, hrow, hvalue⟩, hdeviates⟩
    obtain rfl | hrest := List.mem_cons.mp hrow
    · have hself := hdeviates value hvalue
      rw [Value.same_refl] at hself
      cases hself
    · exact ⟨row, hrest, mem_differing_iff.mpr ⟨value, hvalue, hdeviates⟩⟩

/-- Some value deviates from the first row exactly if two rows disagree or the first row has none
to deviate from. -/
theorem exists_deviates_iff {first : Row} {rest : List Row} :
    (∃ value, HasValue shelf ⟨first :: rest⟩ key value ∧ Deviates (first.view shelf) key value) ↔
      Disagrees shelf ⟨first :: rest⟩ key ∨
        (first.view shelf).get? key = none ∧ ∃ value, HasValue shelf ⟨first :: rest⟩ key value := by
  cases hfirst : (first.view shelf).get? key with
  | none =>
    have hdeviates (value : Value) : Deviates (first.view shelf) key value := by
      intro given hgiven
      cases hfirst.symm.trans hgiven
    constructor
    · rintro ⟨value, hvalue, -⟩
      exact .inr ⟨rfl, value, hvalue⟩
    · rintro (⟨left, -, hleft, -, -⟩ | ⟨-, value, hvalue⟩)
      · exact ⟨left, hleft, hdeviates left⟩
      · exact ⟨value, hvalue, hdeviates value⟩
  | some given =>
    have hgiven : HasValue shelf ⟨first :: rest⟩ key given :=
      ⟨first, List.mem_cons_self, hfirst⟩
    have hdeviates (value : Value) :
        Deviates (first.view shelf) key value ↔ given.same value = false := by
      simp [Deviates, hfirst]
    constructor
    · rintro ⟨value, hvalue, hdiffers⟩
      exact .inl ⟨given, value, hgiven, hvalue, (hdeviates value).mp hdiffers⟩
    · rintro (⟨left, right, hleft, hright, hdiffers⟩ | ⟨hnone, -⟩)
      · cases hsame : given.same left with
        | false => exact ⟨left, hleft, (hdeviates left).mpr hsame⟩
        | true =>
          -- The first row goes with the left value, so it does not go with the right one.
          refine ⟨right, hright, (hdeviates right).mpr (Bool.eq_false_iff.mpr fun hother => ?_)⟩
          rw [Value.same_trans (Value.same_symm hsame) hother] at hdiffers
          cases hdiffers
      · cases hnone

/-- **A column is listed if two rows disagree in it, or if the first row lacks it and another one
has it.** -/
theorem mem_varying_iff : key ∈ frame.varying shelf beginning ↔
    Key.startsWith beginning key = true ∧ (frame.Disagrees shelf key ∨
      frame.FirstLacks shelf key ∧ ∃ value, frame.HasValue shelf key value) := by
  obtain ⟨rows⟩ := frame
  cases rows with
  | nil => simp [varying, views, Disagrees, HasValue]
  | cons first rest =>
    have hfirst : FirstLacks shelf ⟨first :: rest⟩ key ↔ (first.view shelf).get? key = none := by
      simp [FirstLacks]
    rw [hfirst, ← exists_deviates_iff, ← exists_differing_iff]
    simp only [varying, views, List.map_cons, List.mem_eraseDups, List.mem_filter,
      List.mem_flatMap, List.mem_map, exists_exists_and_eq_and]
    exact and_comm

theorem nodup_varying (shelf : Shelf) (beginning : String) (frame : Frame) :
    (frame.varying shelf beginning).Nodup := by
  unfold varying
  split
  · exact List.nodup_nil
  · exact nodup_eraseDups _

/-! ## Other orders of the rows -/

theorem FirstLacks.exists_row (h : frame.FirstLacks shelf key) :
    ∃ row ∈ frame.rows, (row.view shelf).get? key = none := by
  obtain ⟨first, hfirst, hlacks⟩ := h
  exact ⟨first, List.mem_of_mem_head? hfirst, hlacks⟩

/-- Where the first row decides, the column is patchy. -/
theorem disagrees_or_firstLacks_iff (hperm : frame.rows.Perm other.rows) :
    (other.Disagrees shelf key ∨
      other.FirstLacks shelf key ∧ ∃ value, other.HasValue shelf key value) ↔
    frame.Disagrees shelf key ∨ frame.Patchy shelf key ∧ other.FirstLacks shelf key := by
  rw [← disagrees_iff_of_perm hperm]
  constructor
  · rintro (hdisagrees | ⟨hlacks, hvalue⟩)
    · exact .inl hdisagrees
    · by_cases hdisagrees : frame.Disagrees shelf key
      · exact .inl hdisagrees
      · refine .inr ⟨⟨?_, ?_, hdisagrees⟩, hlacks⟩
        · simpa only [hasValue_iff_of_perm hperm] using hvalue
        · simpa only [hperm.mem_iff] using hlacks.exists_row
  · rintro (hdisagrees | ⟨hpatchy, hlacks⟩)
    · exact .inl hdisagrees
    · refine .inr ⟨hlacks, ?_⟩
      simpa only [hasValue_iff_of_perm hperm] using hpatchy.had

/-- **The columns that vary do not depend on the order of the rows, but for patchy ones.**  However
rows are reordered, no column is listed twice, and a column is listed exactly if it has the
beginning and two rows disagree in it, or it is patchy and the row that now comes first lacks it. -/
theorem varying_of_perm (hperm : frame.rows.Perm other.rows) (shelf : Shelf)
    (beginning : String) :
    (frame.varying shelf beginning).Nodup ∧ (other.varying shelf beginning).Nodup ∧
    ∀ key,
      (¬frame.Patchy shelf key →
        (key ∈ frame.varying shelf beginning ↔ key ∈ other.varying shelf beginning)) ∧
      (key ∈ other.varying shelf beginning ↔ Key.startsWith beginning key = true ∧
        (frame.Disagrees shelf key ∨ frame.Patchy shelf key ∧ other.FirstLacks shelf key)) := by
  refine ⟨nodup_varying _ _ _, nodup_varying _ _ _, fun key => ⟨fun hpatchy => ?_, ?_⟩⟩
  · rw [mem_varying_iff, mem_varying_iff, disagrees_or_firstLacks_iff (.refl frame.rows),
      disagrees_or_firstLacks_iff hperm]
    simp only [hpatchy, false_and]
  · rw [mem_varying_iff, disagrees_or_firstLacks_iff hperm]

/-- Two rows agree in a column, as an integer and a double, and the third one lacks it; in another
column one of them has null. -/
theorem varying_of_three_rows :
    let first := Row.ofFields (some 1) [("config.a", .int 1), ("config.b", .int 1)]
    let second := Row.ofFields (some 2) [("config.a", .float (.ofInt 1)), ("config.b", .null)]
    let third := Row.ofFields none [("config.b", .int 1)]
    let frame : Frame := ⟨[first, second, third]⟩
    let other : Frame := ⟨[third, first, second]⟩
    frame.rows.Perm other.rows ∧ frame.Patchy {} "config.a" ∧ frame.Disagrees {} "config.b" ∧
      "config.a" ∉ frame.varying {} "config." ∧ "config.a" ∈ other.varying {} "config." ∧
      "config.b" ∈ frame.varying {} "config." ∧ "config.b" ∈ other.varying {} "config." := by
  intro first second third frame other
  have hperm : ([first, second] ++ [third]).Perm ([third] ++ [first, second]) :=
    List.perm_append_comm
  have hvalue (key : String) (value : Value) : frame.HasValue {} key value ↔
      (first.view {}).get? key = some value ∨ (second.view {}).get? key = some value ∨
        (third.view {}).get? key = some value := by
    simp [HasValue, frame]
  have hfirst : (first.view {}).get? "config.a" = some (.int 1) := get?_view_ofFields _ _
  have hsecond : (second.view {}).get? "config.a" = some (.float (.ofInt 1)) :=
    get?_view_ofFields _ _
  have hthird : (third.view {}).get? "config.a" = none := get?_view_ofFields _ _
  have hpatchy : frame.Patchy {} "config.a" := by
    refine ⟨⟨.int 1, (hvalue _ _).mpr (.inl hfirst)⟩, ⟨third, by simp [frame], hthird⟩, ?_⟩
    rintro ⟨left, right, hleft, hright, hdiffers⟩
    rw [hvalue, hfirst, hsecond, hthird] at hleft hright
    obtain hleft | hleft | hleft := hleft <;> cases hleft <;>
      obtain hright | hright | hright := hright <;> cases hright <;>
        exact absurd hdiffers (by decide +kernel)
  have hdisagrees : frame.Disagrees {} "config.b" :=
    ⟨.int 1, .null, (hvalue _ _).mpr (.inl (get?_view_ofFields _ _)),
      (hvalue _ _).mpr (.inr (.inl (get?_view_ofFields _ _))), rfl⟩
  obtain ⟨-, -, hcolumns⟩ := varying_of_perm hperm {} "config."
  obtain ⟨-, -, hsame⟩ := varying_of_perm (.refl frame.rows) {} "config."
  have hlisted : "config.b" ∈ other.varying {} "config." :=
    (hcolumns "config.b").2.mpr ⟨rfl, .inl hdisagrees⟩
  refine ⟨hperm, hpatchy, hdisagrees, fun hmem => ?_, ?_, ?_, hlisted⟩
  · obtain ⟨-, hdiffers | ⟨-, row, hrow, hlacks⟩⟩ := (hsame "config.a").2.mp hmem
    · exact hpatchy.agrees hdiffers
    · cases hrow
      cases hfirst.symm.trans hlacks
  · exact (hcolumns "config.a").2.mpr ⟨rfl, .inr ⟨hpatchy, third, rfl, hthird⟩⟩
  · exact ((hcolumns "config.b").1 fun h => h.agrees hdisagrees).mpr hlisted

/-- A column of one of two rows varies only if the other row comes first. -/
theorem not_forall_mem_varying_of_perm :
    ¬ ∀ (frame other : Frame) (shelf : Shelf) (beginning : String), frame.rows.Perm other.rows →
      (frame.varying shelf beginning).Nodup ∧ (other.varying shelf beginning).Nodup ∧
      ∀ key, key ∈ frame.varying shelf beginning ↔ key ∈ other.varying shelf beginning := by
  intro hall
  let row := Row.ofFields none [("config.a", .int 1)]
  let bare := Row.ofFields none []
  obtain ⟨-, -, hcolumns⟩ := hall ⟨[row, bare]⟩ ⟨[bare, row]⟩ {} "config." (.swap bare row [])
  have hlisted : "config.a" ∈ varying {} "config." ⟨[bare, row]⟩ := by decide +kernel
  exact absurd ((hcolumns "config.a").mpr hlisted) (by decide +kernel)

end Frame

end Logbook
