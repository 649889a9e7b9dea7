import Logbook.Proofs.Artifact.Loader
import Logbook.Proofs.Metric.Loader
import Logbook.Proofs.Reading

/-!
# Faithful loaders on a shelf

A shelf changes whenever something is read or released.  `Shelf.Keeps` says what every
such change leaves alone: each loader stays where it is, for the same log or the same
type, and a loader that was faithful to its file still is.
-/

namespace Logbook

namespace Shelf

/-- The loaders of the second shelf are later states of those of the first. -/
structure Keeps (disk : Disk) (before after : Shelf) : Prop where
  metrics (loader : Nat) (state : MetricLoader) (h : before.metrics[loader]? = some state) :
    ∃ later, after.metrics[loader]? = some later ∧ state.Continues disk later
  artifacts (loader : Nat) (state : ArtifactLoader) (h : before.artifacts[loader]? = some state) :
    ∃ later, after.artifacts[loader]? = some later ∧ state.Continues disk later

theorem Keeps.refl (disk : Disk) (shelf : Shelf) : Keeps disk shelf shelf where
  metrics _ state hstate := ⟨state, hstate, .refl disk state⟩
  artifacts _ state hstate := ⟨state, hstate, .refl disk state⟩

/-! ## Asking -/

/-- Asking a metric loader that is on the shelf. -/
theorem fetchMetric_apply {disk : Disk} {shelf : Shelf} {loader : Nat} {state : MetricLoader}
    (hstate : shelf.metrics[loader]? = some state) (key : String) :
    fetchMetric loader key disk shelf =
      ((state.fetch disk key).1,
        { shelf with metrics := shelf.metrics.setIfInBounds loader (state.fetch disk key).2 }) := by
  unfold fetchMetric
  rw [hstate]

/-- Asking an artifact loader that is on the shelf. -/
theorem fetchArtifacts_apply {disk : Disk} {shelf : Shelf} {loader : Nat}
    {state : ArtifactLoader} (hstate : shelf.artifacts[loader]? = some state) (key : String) :
    fetchArtifacts loader key disk shelf =
      ((state.fetch disk key).1,
        { shelf with
          artifacts := shelf.artifacts.setIfInBounds loader (state.fetch disk key).2 }) := by
  unfold fetchArtifacts
  rw [hstate]

/-- Replacing an item of an array by a later one, where later is reflexive. -/
private theorem getElem?_set_later {α : Type} {later : α → α → Prop}
    (hrefl : ∀ state, later state state) {states : Array α} {number : Nat} {state next : α}
    (hstate : states[number]? = some state) (hnext : later state next) (other : Nat) (found : α)
    (hfound : states[other]? = some found) :
    ∃ after, (states.setIfInBounds number next)[other]? = some after ∧ later found after := by
  rw [Array.getElem?_setIfInBounds]
  by_cases hother : number = other
  · subst hother
    obtain rfl : state = found := Option.some_inj.mp (hstate.symm.trans hfound)
    rw [if_pos rfl, if_pos (Array.getElem?_eq_some_iff.mp hstate).1]
    exact ⟨next, rfl, hnext⟩
  · rw [if_neg hother]
    exact ⟨found, hfound, hrefl found⟩

theorem keeps_fetchMetric (disk : Disk) (shelf : Shelf) (loader : Nat) (key : String) :
    Keeps disk shelf (fetchMetric loader key disk shelf).2 := by
  cases hstate : shelf.metrics[loader]? with
  | none =>
    unfold fetchMetric
    rw [hstate]
    exact Keeps.refl disk shelf
  | some state =>
    rw [fetchMetric_apply hstate]
    exact ⟨getElem?_set_later (.refl disk) hstate (state.continues_fetch disk key),
      (Keeps.refl disk shelf).artifacts⟩

theorem keeps_fetchArtifacts (disk : Disk) (shelf : Shelf) (loader : Nat) (key : String) :
    Keeps disk shelf (fetchArtifacts loader key disk shelf).2 := by
  cases hstate : shelf.artifacts[loader]? with
  | none =>
    unfold fetchArtifacts
    rw [hstate]
    exact Keeps.refl disk shelf
  | some state =>
    rw [fetchArtifacts_apply hstate]
    exact ⟨(Keeps.refl disk shelf).metrics,
      getElem?_set_later (.refl disk) hstate (state.continues_fetch disk key)⟩

/-! ## Releasing -/

/-- Changing some items of an array, each to a later one, makes all of them later. -/
private theorem foldl_modify_later {α : Type} {change : α → α} {later : α → α → Prop}
    (hrefl : ∀ state, later state state)
    (htrans : ∀ {first second third}, later first second → later second third → later first third)
    (hchange : ∀ state, later state (change state)) (numbers : List Nat) {states : Array α}
    (number : Nat) (state : α) (hstate : states[number]? = some state) :
    ∃ after, (numbers.foldl (fun states number => states.modify number change) states)[number]? =
      some after ∧ later state after := by
  induction numbers generalizing states state with
  | nil => exact ⟨state, hstate, hrefl state⟩
  | cons first numbers ih =>
    rw [List.foldl_cons]
    by_cases hfirst : first = number
    · have hchanged : (states.modify first change)[number]? = some (change state) := by
        rw [Array.getElem?_modify, if_pos hfirst, hstate]
        rfl
      obtain ⟨after, hafter, hlater⟩ := ih (change state) hchanged
      exact ⟨after, hafter, htrans (hchange state) hlater⟩
    · refine ih state ?_
      rw [Array.getElem?_modify, if_neg hfirst, hstate]

theorem keeps_release (disk : Disk) (shelf : Shelf) (metrics artifacts : List Nat) :
    Keeps disk shelf (shelf.release metrics artifacts) where
  metrics := foldl_modify_later (.refl disk) .trans (·.continues_release disk) metrics
  artifacts := foldl_modify_later (.refl disk) .trans (·.continues_release disk) artifacts

end Shelf

end Logbook
