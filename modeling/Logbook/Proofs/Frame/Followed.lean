import Logbook.Proofs.Frame.Leaves
import Logbook.Proofs.Frame.Tracking

/-!
# Leaves on their way through a change of frames

Every leaf of a grouping is followed by a `Tracked` item (`Grouping.Followed`), and what is
written into the leaf has to do with what the item has read, in whatever way is asked for.  A
change of frames is done to one frame after the other, each beside all others.  So what it does
to the leaves of one frame (`Frame.Takes`), it does to the leaves of a grouping
(`Followed.mapFrames`).
-/

namespace Logbook

/-- A row into which values are written, with the item that follows it. -/
abbrev Leaf.State := List (String × Value) × Tracked

namespace Grouping

/-- Every leaf of a grouping has an item that stands for it. -/
structure Followed (P : List (String × Value) → Tracked → Prop) (disk : Disk)
    (start now : Shelf) (outer : List (String × Value)) (grouping : Grouping)
    (states : List Leaf.State) (others : List Tracked) : Prop where
  leaves : (states.map fun state => (state.1, state.2.row)) = grouping.leaves outer
  holds (state : Leaf.State) (hstate : state ∈ states) : P state.1 state.2
  invariant : Tracked.Invariant disk start now (states.map Prod.snd ++ others)

variable {P : List (String × Value) → Tracked → Prop} {disk : Disk} {start : Shelf}

/-- The written fields are the same in all leaves of a frame. -/
theorem Followed.frame {frame : Frame} {now : Shelf} {outer : List (String × Value)}
    {states : List Leaf.State} {others : List Tracked}
    (h : (whole frame).Followed P disk start now outer states others) :
    (states.map fun state => state.2.row) = frame.rows ∧ ∀ state ∈ states, state.1 = outer := by
  have hleaves := h.leaves
  rw [Grouping.leaves] at hleaves
  constructor
  · have hrows := congrArg (List.map Prod.snd) hleaves
    rw [List.map_map, List.map_map] at hrows
    exact hrows.trans (List.map_id frame.rows)
  · intro state hstate
    have hleaf : (state.1, state.2.row) ∈ frame.rows.map fun row => (outer, row) :=
      hleaves ▸ List.mem_map_of_mem hstate
    obtain ⟨row, -, heq⟩ := List.mem_map.mp hleaf
    exact (congrArg Prod.fst heq).symm

end Grouping

/-- A change of a frame takes the items of its leaves along. -/
def Frame.Takes (P Q : List (String × Value) → Tracked → Prop)
    (R : List Leaf.State → List Leaf.State → Prop) (disk : Disk) (start : Shelf)
    (change : Frame → Reading Grouping) : Prop :=
  ∀ {frame : Frame} {outer : List (String × Value)} {states : List Leaf.State}
    {others : List Tracked} {result : Grouping} {now after : Shelf},
    (Grouping.whole frame).Followed P disk start now outer states others →
    change frame disk now = (.ok result, after) →
    ∃ next, result.Followed Q disk start after outer next others ∧ R states next

namespace Grouping

variable {P Q : List (String × Value) → Tracked → Prop} {disk : Disk} {start : Shelf}
  {R : List Leaf.State → List Leaf.State → Prop} {change : Frame → Reading Grouping}

mutual

/-- What a change of frames does to one frame, it does to a tree. -/
theorem Followed.mapFrames (hnil : R [] [])
    (happend : ∀ {here nextHere there nextThere}, R here nextHere → R there nextThere →
      R (here ++ there) (nextHere ++ nextThere))
    (htakes : Frame.Takes P Q R disk start change) {grouping result : Grouping}
    {outer : List (String × Value)} {states : List Leaf.State} {others : List Tracked}
    {now after : Shelf} (h : grouping.Followed P disk start now outer states others)
    (hrun : grouping.mapFrames change disk now = (.ok result, after)) :
    ∃ next, result.Followed Q disk start after outer next others ∧ R states next := by
  cases grouping with
  | whole frame =>
    rw [Grouping.mapFrames] at hrun
    exact htakes h hrun
  | split keys groups =>
    rw [Grouping.mapFrames] at hrun
    obtain ⟨results, between, hresults, hpure⟩ := Reading.bind_eq_ok.mp hrun
    cases hpure
    exact Followed.mapGroups hnil happend htakes h hresults

theorem Followed.mapGroups (hnil : R [] [])
    (happend : ∀ {here nextHere there nextThere}, R here nextHere → R there nextThere →
      R (here ++ there) (nextHere ++ nextThere))
    (htakes : Frame.Takes P Q R disk start change) {keys : List String}
    {groups results : List (List Value × Grouping)} {outer : List (String × Value)}
    {states : List Leaf.State} {others : List Tracked} {now after : Shelf}
    (h : (split keys groups).Followed P disk start now outer states others)
    (hrun : Grouping.mapGroups change groups disk now = (.ok results, after)) :
    ∃ next, (split keys results).Followed Q disk start after outer next others ∧
      R states next := by
  cases groups with
  | nil =>
    rw [Grouping.mapGroups] at hrun
    cases hrun
    obtain rfl : states = [] := List.map_eq_nil_iff.mp h.leaves
    exact ⟨[], ⟨rfl, by simp, h.invariant⟩, hnil⟩
  | cons group groups =>
    obtain ⟨tuple, group⟩ := group
    rw [Grouping.mapGroups] at hrun
    obtain ⟨first, between, hfirst, hrest⟩ := Reading.bind_eq_ok.mp hrun
    obtain ⟨rest, last, hlast, hpure⟩ := Reading.bind_eq_ok.mp hrest
    cases hpure
    have hleaves := h.leaves
    rw [Grouping.leaves, leavesOfGroups] at hleaves
    obtain ⟨here, there, rfl, hhere, hthere⟩ := List.map_eq_append_iff.mp hleaves
    have hinvariant := h.invariant
    rw [List.map_append, List.append_assoc] at hinvariant
    -- The first group is changed beside the others, and then they beside it.
    obtain ⟨nextHere, hnextHere, hhereNext⟩ := Followed.mapFrames hnil happend htakes
      ⟨hhere, fun state hstate => h.holds state (List.mem_append_left _ hstate), hinvariant⟩ hfirst
    have haside : (split keys groups).Followed P disk start between outer there
        (nextHere.map Prod.snd ++ others) :=
      ⟨hthere, fun state hstate => h.holds state (List.mem_append_right _ hstate),
        hnextHere.invariant.perm (List.perm_append_comm_assoc _ _ _)⟩
    obtain ⟨nextThere, hnextThere, hthereNext⟩ :=
      Followed.mapGroups hnil happend htakes haside hlast
    refine ⟨nextHere ++ nextThere, ⟨?_, fun state hstate => ?_, ?_⟩, happend hhereNext hthereNext⟩
    · rw [List.map_append, hnextHere.leaves, hnextThere.leaves]
      rfl
    · obtain hmem | hmem := List.mem_append.mp hstate
      · exact hnextHere.holds state hmem
      · exact hnextThere.holds state hmem
    · rw [List.map_append, List.append_assoc]
      exact hnextThere.invariant.perm (List.perm_append_comm_assoc _ _ _)

end

end Grouping

end Logbook
