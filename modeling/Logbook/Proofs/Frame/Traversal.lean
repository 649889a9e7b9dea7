import Logbook.Proofs.Frame.Groups
import Logbook.Proofs.Frame.Parts
import Logbook.Proofs.Frame.Tracking

/-!
# Going through the parts of a grouping

A change of the frames of a grouping is done to one part after the other, and what it makes of a
part takes the place of the part (`Grouping.parts_mapFrames`).  So a grouping is its list of parts,
and a tree need not be taken apart again.  If rows are followed on their way, each part is changed
beside all others (`Tracked.Invariant.mapParts`).

A frame that is split again and again has the parts that its rows have by the tuples of one split
after the other (`partsBy`).  Splitting every part once more is adding a split at the end
(`partsBy_append`).
-/

namespace Logbook

/-! ## Parts by several splits -/

section Parts

variable {α β : Type} {keys : List String} {tuple : α → List Value} {items : List α}
  {splits : List (List String × (α → List Value))}

/-- The parts of some items by the tuples of one split after the other: a part for each tuple where
that first appears, and in it the items whose tuple equals it, in their order. -/
def partsBy : List (List String × (α → List Value)) → List α → List (Address × List α)
  | [], items => [([], items)]
  | (keys, tuple) :: splits, items =>
      (firstTuples (items.map fun item => (tuple item, item))).flatMap fun wanted =>
        (partsBy splits (withTuple tuple wanted items)).map fun part =>
          ((keys, wanted) :: part.1, part.2)

theorem partsBy_cons : partsBy ((keys, tuple) :: splits) items =
    (groupWith tuple items).flatMap fun group =>
      (partsBy splits group.2).map fun part => ((keys, group.1) :: part.1, part.2) := by
  rw [partsBy, groupWith_eq, List.flatMap_map]

/-- One split has a part for each distinct tuple. -/
theorem partsBy_single : partsBy [(keys, tuple)] items =
    (firstTuples (items.map fun item => (tuple item, item))).map fun wanted =>
      ([(keys, wanted)], withTuple tuple wanted items) := by
  rw [partsBy]
  exact List.map_eq_flatMap.symm

/-- One more split splits every part. -/
theorem partsBy_append (splits : List (List String × (α → List Value))) (items : List α) :
    partsBy (splits ++ [(keys, tuple)]) items =
      (partsBy splits items).flatMap fun part => (groupWith tuple part.2).map fun group =>
        (part.1 ++ [(keys, group.1)], group.2) := by
  induction splits generalizing items with
  | nil =>
    rw [List.nil_append, partsBy_cons, partsBy, List.flatMap_singleton]
    exact List.map_eq_flatMap.symm
  | cons split splits ih =>
    obtain ⟨outerKeys, outer⟩ := split
    rw [List.cons_append, partsBy_cons, partsBy_cons, List.flatMap_assoc]
    apply congrArg (List.flatMap · (groupWith outer items))
    funext group
    rw [ih, List.map_flatMap, List.flatMap_map]
    simp only [List.map_map, Function.comp_def, List.cons_append]

theorem partsBy_map (change : β → α) (splits : List (List String × (α → List Value)))
    (items : List β) :
    partsBy splits (items.map change) =
      (partsBy (splits.map fun split => (split.1, fun item => split.2 (change item))) items).map
        fun part => (part.1, part.2.map change) := by
  induction splits generalizing items with
  | nil => rfl
  | cons split splits ih =>
    obtain ⟨keys, tuple⟩ := split
    rw [List.map_cons, partsBy_cons, partsBy_cons, groupWith_map, List.flatMap_map,
      List.map_flatMap]
    apply congrArg (List.flatMap · (groupWith (fun item => tuple (change item)) items))
    funext group
    rw [ih, List.map_map, List.map_map]
    rfl

/-- Only the tuples of the items matter. -/
theorem partsBy_congr {others : List (List String × (α → List Value))}
    (h : List.Forall₂ (fun split other => split.1 = other.1 ∧
      ∀ item ∈ items, split.2 item = other.2 item) splits others) :
    partsBy splits items = partsBy others items := by
  induction splits generalizing others items with
  | nil =>
    cases h
    rfl
  | cons split splits ih =>
    cases h with
    | @cons _ other _ others hsplit hsplits =>
      obtain ⟨keys, first⟩ := split
      obtain ⟨_, second⟩ := other
      obtain ⟨rfl, htuples⟩ := hsplit
      have hgroups : groupWith first items = groupWith second items :=
        congrArg groupByTuple
          (List.map_congr_left fun item hitem => congrArg (·, item) (htuples item hitem))
      rw [partsBy_cons, partsBy_cons, hgroups]
      apply List.flatMap_congr
      intro group hgroup
      rw [ih (hsplits.imp fun _ _ hsame => ⟨hsame.1, fun item hitem => hsame.2 item ?_⟩)]
      exact mem_of_mem_group hgroup item hitem

/-- Every item is in one part. -/
theorem partsBy_perm (splits : List (List String × (α → List Value))) (items : List α) :
    ((partsBy splits items).flatMap Prod.snd).Perm items := by
  induction splits generalizing items with
  | nil => exact List.Perm.of_eq (List.flatMap_singleton _ _)
  | cons split splits ih =>
    obtain ⟨keys, tuple⟩ := split
    rw [partsBy_cons, List.flatMap_assoc]
    have hgroups : ((groupWith tuple items).flatMap fun group =>
        ((partsBy splits group.2).map fun part => ((keys, group.1) :: part.1, part.2)).flatMap
          Prod.snd).Perm ((groupWith tuple items).flatMap Prod.snd) := by
      apply List.Perm.flatMap_left
      intro group _
      rw [List.flatMap_map]
      exact ih group.2
    exact hgroups.trans (groupWith_perm tuple items)

end Parts

/-! ## One part after the other -/

namespace Grouping

variable {change : Frame → Reading Grouping} {disk : Disk}

/-- What takes the place of some parts. -/
def replaced (parts : List (Address × Frame)) (made : List Grouping) : List (Address × Frame) :=
  (parts.zip made).flatMap fun entry =>
    entry.2.parts.map fun inner => (entry.1.1 ++ inner.1, inner.2)

theorem replaced_append {parts more : List (Address × Frame)} {made others : List Grouping}
    (hlength : parts.length = made.length) :
    replaced (parts ++ more) (made ++ others) = replaced parts made ++ replaced more others := by
  rw [replaced, List.zip_append hlength, List.flatMap_append]
  rfl

theorem replaced_below (split : List String × List Value) (parts : List (Address × Frame))
    (made : List Grouping) :
    replaced (parts.map fun part => (split :: part.1, part.2)) made =
      (replaced parts made).map fun part => (split :: part.1, part.2) := by
  rw [replaced, replaced, List.zip_map_left, List.flatMap_map, List.map_flatMap]
  apply congrArg (List.flatMap · (parts.zip made))
  funext entry
  rw [List.map_map]
  rfl

mutual

/-- **A change of the frames is done to one part after the other.** -/
theorem parts_mapFrames {grouping result : Grouping} {now after : Shelf}
    (hrun : grouping.mapFrames change disk now = (.ok result, after)) :
    ∃ made, (grouping.parts.map Prod.snd).mapM change disk now = (.ok made, after) ∧
      result.parts = replaced grouping.parts made := by
  cases grouping with
  | whole frame =>
    rw [mapFrames] at hrun
    refine ⟨[result], ?_, ?_⟩
    · show [frame].mapM change disk now = _
      rw [List.mapM_cons, Reading.bind_of_ok hrun]
      rfl
    · simp [replaced, parts]
  | split keys groups =>
    rw [mapFrames] at hrun
    obtain ⟨results, between, hresults, hpure⟩ := Reading.bind_eq_ok.mp hrun
    cases hpure
    exact parts_mapGroups keys hresults

theorem parts_mapGroups (keys : List String) {groups results : List (List Value × Grouping)}
    {now after : Shelf} (hrun : mapGroups change groups disk now = (.ok results, after)) :
    ∃ made, ((partsOfGroups keys groups).map Prod.snd).mapM change disk now = (.ok made, after) ∧
      partsOfGroups keys results = replaced (partsOfGroups keys groups) made := by
  cases groups with
  | nil =>
    rw [mapGroups] at hrun
    cases hrun
    exact ⟨[], rfl, rfl⟩
  | cons group groups =>
    obtain ⟨tuple, group⟩ := group
    rw [mapGroups] at hrun
    obtain ⟨first, between, hfirst, hrest⟩ := Reading.bind_eq_ok.mp hrun
    obtain ⟨rest, last, hlast, hpure⟩ := Reading.bind_eq_ok.mp hrest
    cases hpure
    obtain ⟨here, hhere, hfirstParts⟩ := parts_mapFrames hfirst
    obtain ⟨there, hthere, hrestParts⟩ := parts_mapGroups keys hlast
    have hlength : (group.parts.map fun part => ((keys, tuple) :: part.1, part.2)).length =
        here.length := by
      rw [List.length_map, Reading.length_of_mapM hhere, List.length_map]
    refine ⟨here ++ there, ?_, ?_⟩
    · rw [partsOfGroups, List.map_append, List.map_map, List.mapM_append]
      exact (Reading.bind_of_ok hhere).trans (Reading.bind_of_ok hthere)
    · rw [partsOfGroups, partsOfGroups, replaced_append hlength, replaced_below, ← hfirstParts,
        hrestParts]

end

mutual

/-- If the change can be done to one part after the other, it can be done to the grouping. -/
theorem exists_mapFrames {grouping : Grouping} {made : List Grouping} {now after : Shelf}
    (hmade : (grouping.parts.map Prod.snd).mapM change disk now = (.ok made, after)) :
    ∃ result, grouping.mapFrames change disk now = (.ok result, after) := by
  cases grouping with
  | whole frame =>
    have hframe : [frame].mapM change disk now = (.ok made, after) := hmade
    rw [List.mapM_cons] at hframe
    obtain ⟨result, between, hresult, hrest⟩ := Reading.bind_eq_ok.mp hframe
    cases hrest
    rw [mapFrames]
    exact ⟨result, hresult⟩
  | split keys groups =>
    obtain ⟨results, hresults⟩ := exists_mapGroups keys hmade
    rw [mapFrames]
    exact ⟨split keys results, Reading.bind_of_ok hresults⟩

theorem exists_mapGroups (keys : List String) {groups : List (List Value × Grouping)}
    {made : List Grouping} {now after : Shelf}
    (hmade : ((partsOfGroups keys groups).map Prod.snd).mapM change disk now = (.ok made, after)) :
    ∃ results, mapGroups change groups disk now = (.ok results, after) := by
  cases groups with
  | nil =>
    cases hmade
    rw [mapGroups]
    exact ⟨[], rfl⟩
  | cons group groups =>
    obtain ⟨tuple, group⟩ := group
    rw [partsOfGroups, List.map_append, List.map_map, List.mapM_append] at hmade
    obtain ⟨here, between, hhere, hrest⟩ := Reading.bind_eq_ok.mp hmade
    obtain ⟨there, last, hthere, hpure⟩ := Reading.bind_eq_ok.mp hrest
    cases hpure
    obtain ⟨first, hfirst⟩ := exists_mapFrames hhere
    obtain ⟨rest, hlast⟩ := exists_mapGroups keys hthere
    rw [mapGroups]
    exact ⟨(tuple, first) :: rest,
      (Reading.bind_of_ok hfirst).trans (Reading.bind_of_ok hlast)⟩

end

/-- Where every part becomes a whole frame, the addresses stay. -/
theorem flatMap_parts_of_whole {α : Type} {steps : List α} {address : α → Address}
    {made : α → Grouping} {frame : α → Frame}
    (hmade : ∀ step ∈ steps, made step = .whole (frame step)) :
    (steps.flatMap fun step =>
      (made step).parts.map fun inner => (address step ++ inner.1, inner.2)) =
        steps.map fun step => (address step, frame step) := by
  rw [List.map_eq_flatMap]
  apply List.flatMap_congr
  intro step hstep
  rw [hmade step hstep]
  simp [parts]

end Grouping

namespace Tracked

variable {disk : Disk} {start now after : Shelf} {others : List Tracked}

/-- Whatever is done with several rows at once, each step is beside all other rows. -/
theorem Invariant.mapMany {α β σ τ : Type} {step : α → Reading β} {input : σ → α}
    {here : σ → List Tracked} {there : τ → List Tracked} {Moves : σ → β → τ → Prop}
    {states : List σ} {results : List β}
    (hstep : ∀ state ∈ states, ∀ (others : List Tracked) (now after : Shelf) (result : β),
      Invariant disk start now (here state ++ others) →
      step (input state) disk now = (.ok result, after) →
      ∃ moved, Moves state result moved ∧ Invariant disk start after (there moved ++ others))
    (h : Invariant disk start now (states.flatMap here ++ others))
    (hrun : (states.map input).mapM step disk now = (.ok results, after)) :
    ∃ moves : List (σ × β × τ), moves.map Prod.fst = states ∧
      (moves.map fun move => move.2.1) = results ∧
      (∀ move ∈ moves, Moves move.1 move.2.1 move.2.2) ∧
      Invariant disk start after ((moves.flatMap fun move => there move.2.2) ++ others) := by
  induction states generalizing now others results with
  | nil =>
    cases hrun
    exact ⟨[], rfl, rfl, by simp, h⟩
  | cons state states ih =>
    rw [List.map_cons, List.mapM_cons] at hrun
    obtain ⟨result, between, hresult, hrest⟩ := Reading.bind_eq_ok.mp hrun
    obtain ⟨rest, last, hresults, hpure⟩ := Reading.bind_eq_ok.mp hrest
    cases hpure
    rw [List.flatMap_cons, List.append_assoc] at h
    obtain ⟨moved, hmoved, hbetween⟩ :=
      hstep state List.mem_cons_self _ now between result h hresult
    -- The rows that have been moved now count as some of the others.
    have haside := hbetween.perm (List.perm_append_comm_assoc _ _ _)
    obtain ⟨moves, rfl, rfl, hmoves, hafter⟩ :=
      ih (fun other hother => hstep other (List.mem_cons_of_mem _ hother)) haside hresults
    refine ⟨(state, result, moved) :: moves, rfl, rfl,
      List.forall_mem_cons.mpr ⟨hmoved, hmoves⟩, ?_⟩
    rw [List.flatMap_cons, List.append_assoc]
    exact hafter.perm (List.perm_append_comm_assoc _ _ _)

/-- **What a change does to one part beside all others, it does to a grouping.** -/
theorem Invariant.mapParts {σ τ : Type} (frame : σ → Frame) (here : σ → List Tracked)
    (there : τ → List Tracked) (Moves : σ → Grouping → τ → Prop) {parts : List (Address × σ)}
    {change : Frame → Reading Grouping} {grouping result : Grouping}
    (hstep : ∀ part ∈ parts, ∀ (others : List Tracked) (now after : Shelf) (made : Grouping),
      Invariant disk start now (here part.2 ++ others) →
      change (frame part.2) disk now = (.ok made, after) →
      ∃ moved, Moves part.2 made moved ∧ Invariant disk start after (there moved ++ others))
    (hparts : grouping.parts = parts.map fun part => (part.1, frame part.2))
    (h : Invariant disk start now ((parts.flatMap fun part => here part.2) ++ others))
    (hrun : grouping.mapFrames change disk now = (.ok result, after)) :
    ∃ moves : List ((Address × σ) × Grouping × τ), moves.map Prod.fst = parts ∧
      (∀ move ∈ moves, Moves move.1.2 move.2.1 move.2.2) ∧
      result.parts = (moves.flatMap fun move =>
        move.2.1.parts.map fun inner => (move.1.1 ++ inner.1, inner.2)) ∧
      Invariant disk start after ((moves.flatMap fun move => there move.2.2) ++ others) := by
  obtain ⟨made, hmade, hresult⟩ := Grouping.parts_mapFrames hrun
  have hframes : grouping.parts.map Prod.snd = parts.map fun part => frame part.2 := by
    rw [hparts, List.map_map]
    rfl
  rw [hframes] at hmade
  obtain ⟨moves, hstates, hmoved, hmoves, hafter⟩ := Invariant.mapMany hstep h hmade
  refine ⟨moves, hstates, hmoves, ?_, hafter⟩
  rw [hresult, hparts, ← hstates, ← hmoved, Grouping.replaced, List.map_map, List.zip_map',
    List.flatMap_map]
  rfl

end Tracked

end Logbook
