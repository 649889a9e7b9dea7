import Logbook.Proofs.Frame.Survivors

/-!
# A filter by groups of other keys restores the grouping

Such a filter ungroups a grouping, splits all rows by other keys, filters these groups, and
splits what is left by the levels that there were.  So it only drops rows
(`Grouping.restores_filterBy`): the result has the same levels, every part of it has rows of one
part of the grouping, and all in all there are the rows for which the function gives a true
value in their group by the other keys.

## Strategy

A row cannot get into a part that it was not in.  What it has at the keys of the levels is what
the tuples of its place have written into it, and a tuple that is written over it in between
equals that (`Survives.exists_slot`).  The new tuples equal what is read there, so the new address
is the old one (`Survives.same`).
-/

namespace Logbook

namespace Row

variable {disk : Disk} {before after : Shelf} {row : Row} {key : String} {value given : Value}

/-- A value gives itself. -/
theorem Gave.eq_of_slot (hslot : row.slots.get? key = some (.value value))
    (h : row.Gave disk before after key given) : given = value := by
  obtain ⟨moment, -, -, hvalue⟩ := h
  rw [get?_of_some hslot] at hvalue
  exact (Option.some_inj.mp (Except.ok.inj hvalue)).symm

theorem Fixed.gave (h : row.Fixed disk before key value) (hlater : before.Later disk after) :
    row.Gave disk before after key value :=
  ⟨before, .refl, hlater, h.gives before .refl⟩

end Row

namespace Grouping

variable {disk : Disk} {before after : Shelf} {keys : List String}

/-- What the tuples of a place write into its row equals what the row has there for good. -/
def Known (disk : Disk) (before : Shelf) (place : Address × Row) : Prop :=
  ∀ field ∈ place.1.fields, ∃ given, field.2.same given = true ∧
    place.2.Fixed disk before field.1 given

section Survives

variable {entry : List Value × (Address × Row) × Tracked} {key : String}

theorem Known.exists_slot {place : Address × Row} (h : Known disk before place)
    (hkey : key ∈ place.1.fields.map Prod.fst) :
    ∃ value given, (written place).slots.get? key = some (.value value) ∧
      value.same given = true ∧ place.2.Fixed disk before key given := by
  obtain ⟨value, hmem, hslot⟩ := Row.exists_slot_of_update hkey
  obtain ⟨given, hsame, hfixed⟩ := h _ hmem
  exact ⟨value, given, hslot place.2, hsame, hfixed⟩

/-- What has been written over what the tuples of a place have written equals it. -/
theorem Survives.exists_slot (h : Survives disk before after keys entry)
    (hknown : Known disk before entry.2.1) (hkey : key ∈ entry.2.1.1.fields.map Prod.fst) :
    ∃ value given, entry.2.2.source.slots.get? key = some (.value value) ∧
      value.same given = true ∧ entry.2.1.2.Fixed disk before key given := by
  obtain ⟨former, given, hformer, hsame, hfixed⟩ := hknown.exists_slot hkey
  rw [h.source]
  by_cases hover : key ∈ (keys.zip entry.1).map Prod.fst
  · obtain ⟨value, hmem, hslot⟩ := Row.exists_slot_of_update hover
    obtain ⟨read, hread, hgave⟩ := h.fields _ hmem
    obtain rfl := hgave.eq_of_slot hformer
    exact ⟨value, given, hslot _, Value.same_trans hread hsame, hfixed⟩
  · exact ⟨former, given, (Row.slot_of_update _ hover).trans hformer, hsame, hfixed⟩

/-- Tuples that equal what the row gives are those of its place. -/
theorem Survives.same (h : Survives disk before after keys entry)
    (hknown : Known disk before entry.2.1) {levels : List (List String)} {address : Address}
    (hplace : entry.2.1.1.Fits levels) (haddress : address.Fits levels) {item : Tracked}
    (hsound : item.Sound disk before after) (hsource : item.source = entry.2.2.source)
    (hknows : Leaf.Knows address.fields item) : entry.2.1.1.Same address := by
  refine Address.same_of_fields hplace haddress fun key first second hfirst hsecond => ?_
  obtain ⟨value, given, hslot, hvalue, hfixed⟩ :=
    h.exists_slot hknown (List.mem_map_of_mem hfirst)
  obtain ⟨read, hread, hgiven⟩ := hknows _ hsecond
  obtain rfl : read = value := (hsound.gave key read hgiven).eq_of_slot (hsource ▸ hslot)
  obtain ⟨own, hown, hownFixed⟩ := hknown _ hfirst
  obtain rfl : given = own := hfixed.unique hownFixed
  exact Value.same_trans hown (Value.same_symm (Value.same_trans hread hvalue))

end Survives

/-! ## Splitting again -/

variable {grouping result : Grouping} {mapping : Mapping} {levels : List (List String)}

/-- The rows are split by what they give at the keys, and each has the truth value that the
function has given for it in its group. -/
structure Judged (disk : Disk) (before after : Shelf) (mapping : Mapping) (keys : List String)
    (rows : List Row) (judged : List (List Value × List (Row × Bool))) : Prop where
  split : ∃ tuples : List (List Value),
    List.Forall₂ (fun row tuple => List.Forall₂ (row.Gave disk before after) keys tuple) rows
      tuples ∧
    (judged.map fun group => (group.1, group.2.map Prod.fst)) = groupByTuple (tuples.zip rows)
  judges : ∀ group ∈ judged, mapping.Judges (Row.Yields disk before after) group.2

theorem Sifted.judged {places : List (Address × Row)}
    {judged : List (List Value × List ((Address × Row) × Bool))}
    {left : List (List Value × (Address × Row) × Tracked)}
    (h : Sifted disk before after mapping keys places judged left) :
    Judged disk before after mapping keys (places.map written)
      (judged.map fun group => (group.1, group.2.map (Prod.map written id))) := by
  obtain ⟨tuples, htuples, hparts⟩ := h.split
  refine ⟨⟨tuples, List.forall₂_map_left_iff.mpr htuples, ?_⟩, fun group hgroup => ?_⟩
  · have hzip : tuples.zip (places.map written) =
        (tuples.zip places).map fun pair => (pair.1, written pair.2) := by
      rw [List.zip_map_right]
      rfl
    rw [hzip, groupByTuple_map written, ← hparts, List.map_map, List.map_map]
    refine List.map_congr_left fun group _ => congrArg (Prod.mk group.1) ?_
    simp only [List.map_map, Function.comp_def, Prod.map_fst]
  · obtain ⟨found, hfound, rfl⟩ := List.mem_map.mp hgroup
    exact (h.judges found hfound).map

end Grouping

end Logbook
