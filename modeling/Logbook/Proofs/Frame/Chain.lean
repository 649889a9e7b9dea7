import Logbook.Proofs.Frame.Nested
import Logbook.Proofs.Frame.SteadyScan
import Logbook.Proofs.Frame.Traversal

/-!
# The parts of a frame that is split again and again

Every split reads a tuple from each row, when its turn comes.  As the same row may be in a frame
twice and give different values, tuples belong to a row and its position (`Member`).  A chain of
splits makes the parts that the members have by the tuples that were read from them (`partsBy`),
and in each part a copy stands for each member (`Tracked.SplitBy`, `Frame.Owned.splitBy`).  If the
fields are steady and loaders are faithful, the tuples are what the rows gave at the start.

## Strategy

A split of one frame is `Tracked.Invariant.entries`, and all parts of a grouping are split one
after the other (`Tracked.Invariant.mapParts`).  Each part has its own tuples, but as no member is
in two parts there is one function that gives all of them (`exists_lookup`), and with this adding
a level is `partsBy_append`.
-/

namespace Logbook

/-- Entries with different labels are found by them. -/
theorem exists_lookup {α β : Type} [Inhabited β] {entries : List (β × α)}
    (hnodup : (entries.map Prod.snd).Nodup) :
    ∃ lookup : α → β, ∀ entry ∈ entries, lookup entry.2 = entry.1 := by
  have hvalue : ∀ label, ∃ value, ∀ entry ∈ entries, entry.2 = label → value = entry.1 := by
    intro label
    by_cases hfound : ∃ entry ∈ entries, entry.2 = label
    · obtain ⟨entry, hentry, rfl⟩ := hfound
      refine ⟨entry.1, fun other hother hsame => ?_⟩
      rw [List.inj_on_of_nodup_map hnodup hentry hother hsame.symm]
    · exact ⟨default, fun entry hentry hlabel => absurd ⟨entry, hentry, hlabel⟩ hfound⟩
  choose lookup hlookup using hvalue
  exact ⟨lookup, fun entry hentry => hlookup entry.2 entry hentry rfl⟩

/-- A row of a frame, and its position. -/
abbrev Member := Row × Nat

/-- A split of members: the keys, and the tuple of each member. -/
abbrev Split := List String × (Member → List Value)

namespace Tracked

open Reading

variable {disk : Disk} {start now after : Shelf} {item : Tracked} {others : List Tracked}
  {read keys : List String}

/-! ## What is remembered -/

theorem Recalls.append (h : item.Recalls disk start read)
    (hgives : item.source.GivesAll disk start keys) :
    ({ item with given := keys.zip (item.source.tupleAt disk start keys) ++ item.given } :
      Tracked).Recalls disk start (keys ++ read) := by
  induction keys with
  | nil => exact h
  | cons key keys ih =>
    obtain ⟨⟨value, hvalue⟩, hgives⟩ := Row.givesAll_cons.mp hgives
    rw [Row.tupleAt_cons hvalue]
    exact (ih hgives).cons hvalue

/-! ## Splitting one part -/

/-- What splitting the frame of some members gives: an entry for each of them, with the tuple that
was read.  If these fields are steady, it is what the row gave at the start. -/
structure SplitOff (disk : Disk) (start : Shelf) (read keys : List String)
    (states : List (Member × Tracked)) (made : Grouping)
    (entries : List (List Value × Member × Tracked)) : Prop where
  labels : (entries.map fun entry => (entry.2.1, entry.2.2.source)) =
    states.map fun state => (state.1, state.2.source)
  split (entry : List Value × Member × Tracked) (hentry : entry ∈ entries) :
    ∃ former ∈ states, SplitAt keys former entry
  steady (hfaithful : start.Faithful disk)
    (hready : ∀ state ∈ states, state.2.Ready disk start read keys)
    (entry : List Value × Member × Tracked) (hentry : entry ∈ entries) :
    entry.1 = tuple disk start keys entry.2.2 ∧ entry.2.2.Recalls disk start (keys ++ read)
  made : made.parts = (groupByTuple entries).map fun group =>
    ([(keys, group.1)], frameOf (group.2.map Prod.snd))

theorem Invariant.splitOff {states : List (Member × Tracked)} {made : Grouping}
    (h : Invariant disk start now (states.map Prod.snd ++ others))
    (hrun : (frameOf (states.map Prod.snd)).groupBy keys disk now = (.ok made, after)) :
    ∃ entries, SplitOff disk start read keys states made entries ∧
      Invariant disk start after ((entries.map fun entry => entry.2.2) ++ others) := by
  obtain ⟨pairs, hpairs, rfl⟩ := Frame.groupBy_eq_ok hrun
  have hrows : (states.map fun state => state.2.row) = (frameOf (states.map Prod.snd)).rows := by
    rw [frameOf, List.map_map]
    rfl
  obtain ⟨entries, hlabels, hsplit, rfl, hafter⟩ := h.entries hrows hpairs
  have hsources : (entries.map fun entry => entry.2.2.source) =
      (states.map Prod.snd).map Tracked.source := by
    have hboth := congrArg (List.map Prod.snd) hlabels
    rw [List.map_map, List.map_map] at hboth
    rw [List.map_map]
    exact hboth
  refine ⟨entries, ⟨hlabels, hsplit, ?steady, ?made⟩, hafter⟩
  case steady =>
    intro hfaithful hready entry hentry
    have hitems : ∀ item ∈ states.map Prod.snd, item.Ready disk start read keys :=
      List.forall_mem_map.mpr hready
    have hmeets := h.meets_groupedRows 0 hfaithful hitems
    have hgives := hmeets.needs hpairs
    obtain ⟨moved, hmoved, -, hsame, -⟩ := hmeets.of_ok hpairs
    have htuple : entry.1 = tuple disk start keys entry.2.2 := by
      have htuples := congrArg (List.map Prod.fst) hsame
      rw [List.map_map, List.map_map] at htuples
      have hgiven : (moved.map fun item => tuple disk start keys item) =
          entries.map fun entry => tuple disk start keys entry.2.2 := by
        have hrows := congrArg (List.map (Row.tupleAt disk start keys)) (hmoved.trans hsources.symm)
        rwa [List.map_map, List.map_map] at hrows
      exact List.map_inj_left.mp (htuples.trans hgiven) entry hentry
    obtain ⟨former, hformer, hat⟩ := hsplit entry hentry
    have hrow := hgives former.2.source (List.mem_map_of_mem (List.mem_map_of_mem hformer))
    have hrecalls := (hready former hformer).recalls.append hrow
    refine ⟨htuple, hrecalls.congr hat.source ?_⟩
    rw [hat.given, htuple, tuple, hat.source]
  case made =>
    rw [groupByTuple_map (fun state : Member × Tracked => state.2.row), List.map_map,
      Grouping.parts_split, List.flatMap_map, List.map_eq_flatMap]
    apply congrArg (List.flatMap · (groupByTuple entries))
    funext group
    rw [frameOf, List.map_map]
    rfl

theorem SplitOff.members {states : List (Member × Tracked)} {made : Grouping}
    {entries : List (List Value × Member × Tracked)}
    (h : SplitOff disk start read keys states made entries) :
    (entries.map fun entry => entry.2.1) = states.map Prod.fst := by
  have hboth := congrArg (List.map Prod.fst) h.labels
  rwa [List.map_map, List.map_map] at hboth

/-! ## Splitting all parts -/

/-- The members of a part, with the items that follow them. -/
abbrev Part := Address × List (Member × Tracked)

/-- The item stands for the member, and has been given what the splits have. -/
structure Stands (splits : List Split) (state : Member × Tracked) : Prop where
  source : state.2.source = state.1.1
  length (split : Split) (hsplit : split ∈ splits) :
    (split.2 state.1).length = split.1.length
  given (split : Split) (hsplit : split ∈ splits) : split.1.zip (split.2 state.1) ⊆ state.2.given

/-- The parts of a grouping are those of some members by some splits, and items follow the members.
If the fields are steady, the tuples are what the rows gave at the start. -/
structure SplitBy (disk : Disk) (start now : Shelf) (members : List Member) (splits : List Split)
    (parts : List Part) (grouping : Grouping) : Prop where
  frames : grouping.parts = parts.map fun part => (part.1, frameOf (part.2.map Prod.snd))
  labels : (parts.map fun part => (part.1, part.2.map Prod.fst)) = partsBy splits members
  stands (part : Part) (hpart : part ∈ parts) (state : Member × Tracked)
    (hstate : state ∈ part.2) : Stands splits state
  steady (hfaithful : start.Faithful disk)
    (hsteady : ∀ member ∈ members, ∀ key ∈ splits.flatMap Prod.fst, member.1.Steady start key)
    (part : Part) (hpart : part ∈ parts) (state : Member × Tracked) (hstate : state ∈ part.2) :
    (∀ split ∈ splits, split.2 state.1 = state.1.1.tupleAt disk start split.1) ∧
      state.2.Recalls disk start (splits.flatMap Prod.fst)
  invariant : Invariant disk start now (parts.flatMap fun part => part.2.map Prod.snd)

variable {members : List Member} {splits : List Split} {tuple : Member → List Value}
  {parts : List Part} {part : Part} {state former : Member × Tracked}
  {grouping result : Grouping}

theorem Stands.splitAt (h : Stands splits former)
    (hat : SplitAt keys former (tuple state.1, state)) :
    Stands (splits ++ [(keys, tuple)]) state where
  source := by rw [hat.source, h.source, ← hat.label]
  length := by
    have hlength := h.length
    rw [← hat.label] at hlength
    exact List.forall_mem_append.mpr ⟨hlength, List.forall_mem_singleton.mpr hat.length⟩
  given := by
    have hgiven := h.given
    rw [← hat.label] at hgiven
    rw [hat.given]
    refine List.forall_mem_append.mpr ⟨fun split hsplit => ?_, List.forall_mem_singleton.mpr ?_⟩
    · exact List.subset_append_of_subset_right _ (hgiven split hsplit)
    · exact List.subset_append_left _ _

/-- Every member is in one part. -/
theorem SplitBy.perm (h : SplitBy disk start now members splits parts grouping) :
    (parts.flatMap fun part => part.2.map Prod.fst).Perm members := by
  have hperm := partsBy_perm splits members
  rwa [← h.labels, List.flatMap_map] at hperm

theorem SplitBy.mem (h : SplitBy disk start now members splits parts grouping)
    (hpart : part ∈ parts) (hstate : state ∈ part.2) : state.1 ∈ members :=
  h.perm.subset (List.mem_flatMap.mpr ⟨part, hpart, List.mem_map_of_mem hstate⟩)

/-- The tuples of the splits are what the rows gave on the way. -/
theorem SplitBy.gave (h : SplitBy disk start now members splits parts grouping) {split : Split}
    (hsplit : split ∈ splits) {member : Member} (hmember : member ∈ members) :
    List.Forall₂ (member.1.Gave disk start now) split.1 (split.2 member) := by
  obtain ⟨part, hpart, hmem⟩ := List.mem_flatMap.mp (h.perm.symm.subset hmember)
  obtain ⟨state, hstate, rfl⟩ := List.mem_map.mp hmem
  have hstands := h.stands part hpart state hstate
  have hsound := h.invariant.sound state.2
    (List.mem_flatMap.mpr ⟨part, hpart, List.mem_map_of_mem hstate⟩)
  rw [← hstands.source]
  refine List.forall₂_iff_zip.mpr ⟨(hstands.length split hsplit).symm, fun hvalue => ?_⟩
  exact hsound.gave _ _ (hstands.given split hsplit hvalue)

theorem SplitBy.tuple_eq (h : SplitBy disk start now members splits parts grouping)
    (hfaithful : start.Faithful disk)
    (hsteady : ∀ member ∈ members, ∀ key ∈ splits.flatMap Prod.fst, member.1.Steady start key)
    {split : Split} (hsplit : split ∈ splits) {member : Member} (hmember : member ∈ members) :
    split.2 member = member.1.tupleAt disk start split.1 := by
  obtain ⟨part, hpart, hmem⟩ := List.mem_flatMap.mp (h.perm.symm.subset hmember)
  obtain ⟨state, hstate, rfl⟩ := List.mem_map.mp hmem
  exact (h.steady hfaithful hsteady part hpart state hstate).1 split hsplit

/-- Steady rows make the parts that they have by what they gave at the start. -/
theorem SplitBy.partsBy_eq (h : SplitBy disk start now members splits parts grouping)
    (hfaithful : start.Faithful disk)
    (hsteady : ∀ member ∈ members, ∀ key ∈ splits.flatMap Prod.fst, member.1.Steady start key) :
    partsBy ((splits.map Prod.fst).map fun keys => (keys, Row.tupleAt disk start keys))
        (members.map Prod.fst) =
      (partsBy splits members).map fun part => (part.1, part.2.map Prod.fst) := by
  rw [partsBy_map, List.map_map, List.map_map]
  apply congrArg (List.map _)
  apply partsBy_congr
  rw [List.forall₂_map_left_iff, List.forall₂_same]
  exact fun split hsplit => ⟨rfl, fun member hmember =>
    (h.tuple_eq hfaithful hsteady hsplit hmember).symm⟩

/-- The parts, each split by the tuples of the members. -/
def splitAgain (keys : List String) (tuple : Member → List Value) (parts : List Part) :
    List Part :=
  parts.flatMap fun part => (groupWith (fun state => tuple state.1) part.2).map fun group =>
    (part.1 ++ [(keys, group.1)], group.2)

theorem exists_of_mem_splitAgain (hpart : part ∈ splitAgain keys tuple parts)
    (hstate : state ∈ part.2) : ∃ former ∈ parts, state ∈ former.2 := by
  obtain ⟨former, hformer, hpart⟩ := List.mem_flatMap.mp hpart
  obtain ⟨group, hgroup, rfl⟩ := List.mem_map.mp hpart
  exact ⟨former, hformer, mem_of_mem_group hgroup state hstate⟩

theorem labels_splitAgain (keys : List String) (tuple : Member → List Value)
    (parts : List Part) :
    ((splitAgain keys tuple parts).map fun part => (part.1, part.2.map Prod.fst)) =
      (parts.map fun part => (part.1, part.2.map Prod.fst)).flatMap fun part =>
        (groupWith tuple part.2).map fun group => (part.1 ++ [(keys, group.1)], group.2) := by
  rw [splitAgain, List.map_flatMap, List.flatMap_map]
  apply congrArg (List.flatMap · parts)
  funext part
  rw [groupWith_map, List.map_map, List.map_map]
  rfl

theorem perm_splitAgain (keys : List String) (tuple : Member → List Value)
    (parts : List Part) :
    ((splitAgain keys tuple parts).flatMap fun part => part.2.map Prod.snd).Perm
      (parts.flatMap fun part => part.2.map Prod.snd) := by
  rw [splitAgain, List.flatMap_assoc]
  apply List.Perm.flatMap_left
  intro part _
  rw [List.flatMap_map, ← List.map_flatMap]
  exact (groupWith_perm _ _).map Prod.snd

/-- A part before and after a step of a chain. -/
abbrev Step := Part × Grouping × List (List Value × Member × Tracked)

/-- The members of a part, as they go on. -/
def Step.next (step : Step) : Part := (step.1.1, step.2.2.map Prod.snd)

/-- What is asked of the rows holds for those of each part. -/
theorem SplitBy.ready (h : SplitBy disk start now members splits parts grouping)
    (hfaithful : start.Faithful disk)
    (hsteady : ∀ member ∈ members, ∀ key ∈ splits.flatMap Prod.fst ++ keys,
      member.1.Steady start key)
    (hpart : part ∈ parts) :
    ∀ state ∈ part.2, state.2.Ready disk start (splits.flatMap Prod.fst) keys := by
  intro state hstate
  have hold := h.steady hfaithful fun member hmember key hkey =>
    hsteady member hmember key (List.mem_append_left _ hkey)
  refine ⟨(hold part hpart state hstate).2, fun key hkey => ?_⟩
  rw [(h.stands part hpart state hstate).source]
  exact hsteady state.1 (h.mem hpart hstate) key (List.mem_append_right _ hkey)

/-- A step of all parts, where one function gives the tuples of all members. -/
structure SplitOnce (disk : Disk) (start : Shelf) (splits : List Split) (keys : List String)
    (tuple : Member → List Value) (steps : List Step) : Prop where
  off (step : Step) (hstep : step ∈ steps) :
    SplitOff disk start (splits.flatMap Prod.fst) keys step.1.2 step.2.1 step.2.2
  entries (step : Step) (hstep : step ∈ steps) :
    step.2.2 = (step.2.2.map Prod.snd).map fun state => (tuple state.1, state)

/-- There is such a function, as no member is in two parts. -/
theorem SplitBy.exists_splitOnce {steps : List Step}
    (h : SplitBy disk start now members splits (steps.map Prod.fst) grouping)
    (hnodup : members.Nodup)
    (hsteps : ∀ step ∈ steps,
      SplitOff disk start (splits.flatMap Prod.fst) keys step.1.2 step.2.1 step.2.2) :
    ∃ tuple, SplitOnce disk start splits keys tuple steps := by
  -- What was read from all members, where each member occurs once.
  let entries := (steps.flatMap fun step => step.2.2).map fun entry => (entry.1, entry.2.1)
  have hmembers : entries.map Prod.snd =
      (steps.map Prod.fst).flatMap fun part => part.2.map Prod.fst := by
    rw [List.map_map, List.map_flatMap, List.flatMap_map]
    exact List.flatMap_congr fun step hstep => (hsteps step hstep).members
  obtain ⟨tuple, htuple⟩ := exists_lookup (hmembers ▸ h.perm.nodup_iff.mpr hnodup)
  refine ⟨tuple, hsteps, fun step hstep => ?_⟩
  rw [List.map_map]
  refine (List.map_id _).symm.trans (List.map_congr_left fun entry hentry => ?_)
  have hmem : (entry.1, entry.2.1) ∈ entries :=
    List.mem_map_of_mem (List.mem_flatMap.mpr ⟨step, hstep, hentry⟩)
  exact congrArg (·, entry.2) (htuple _ hmem).symm

section Once

variable {steps : List Step}

theorem SplitOnce.frames (h : SplitOnce disk start splits keys tuple steps) :
    (steps.flatMap fun step => step.2.1.parts.map fun inner => (step.1.1 ++ inner.1, inner.2)) =
      (splitAgain keys tuple (steps.map Step.next)).map fun part =>
        (part.1, frameOf (part.2.map Prod.snd)) := by
  rw [splitAgain, List.flatMap_map, List.map_flatMap]
  apply List.flatMap_congr
  intro step hstep
  have hgroups : groupByTuple step.2.2 =
      groupWith (fun state => tuple state.1) (Step.next step).2 :=
    congrArg groupByTuple (h.entries step hstep)
  rw [(h.off step hstep).made, hgroups, List.map_map, List.map_map]
  rfl

theorem SplitOnce.labels (h : SplitOnce disk start splits keys tuple steps) :
    ((splitAgain keys tuple (steps.map Step.next)).map fun part => (part.1, part.2.map Prod.fst)) =
      ((steps.map Prod.fst).map fun part => (part.1, part.2.map Prod.fst)).flatMap fun part =>
        (groupWith tuple part.2).map fun group => (part.1 ++ [(keys, group.1)], group.2) := by
  rw [labels_splitAgain, List.map_map, List.map_map]
  apply congrArg (List.flatMap _)
  apply List.map_congr_left
  intro step hstep
  rw [Function.comp_apply, Step.next, List.map_map]
  exact congrArg (Prod.mk step.1.1) (h.off step hstep).members

/-- Where a member was before, and what was read from it now. -/
theorem SplitOnce.exists_former (h : SplitOnce disk start splits keys tuple steps)
    (hpart : part ∈ splitAgain keys tuple (steps.map Step.next)) (hstate : state ∈ part.2) :
    ∃ step ∈ steps, (tuple state.1, state) ∈ step.2.2 ∧
      ∃ former ∈ step.1.2, SplitAt keys former (tuple state.1, state) := by
  obtain ⟨_, hnext, hmem⟩ := exists_of_mem_splitAgain hpart hstate
  obtain ⟨step, hstep, rfl⟩ := List.mem_map.mp hnext
  have hentry : (tuple state.1, state) ∈ step.2.2 := by
    rw [h.entries step hstep]
    exact List.mem_map_of_mem hmem
  exact ⟨step, hstep, hentry, (h.off step hstep).split _ hentry⟩

theorem SplitOnce.stands (h : SplitOnce disk start splits keys tuple steps)
    (hsplit : SplitBy disk start now members splits (steps.map Prod.fst) grouping)
    (hpart : part ∈ splitAgain keys tuple (steps.map Step.next)) (hstate : state ∈ part.2) :
    Stands (splits ++ [(keys, tuple)]) state := by
  obtain ⟨step, hstep, -, former, hmem, hat⟩ := h.exists_former hpart hstate
  exact (hsplit.stands step.1 (List.mem_map_of_mem hstep) former hmem).splitAt hat

theorem SplitOnce.steady (h : SplitOnce disk start splits keys tuple steps)
    (hsplit : SplitBy disk start now members splits (steps.map Prod.fst) grouping)
    (hfaithful : start.Faithful disk)
    (hsteady : ∀ member ∈ members, ∀ key ∈ splits.flatMap Prod.fst ++ keys,
      member.1.Steady start key)
    (hpart : part ∈ splitAgain keys tuple (steps.map Step.next)) (hstate : state ∈ part.2) :
    (∀ split ∈ splits ++ [(keys, tuple)], split.2 state.1 = state.1.1.tupleAt disk start split.1) ∧
      state.2.Recalls disk start (splits.flatMap Prod.fst ++ keys) := by
  obtain ⟨step, hstep, hentry, former, hmem, hat⟩ := h.exists_former hpart hstate
  have hready := hsplit.ready hfaithful hsteady (List.mem_map_of_mem hstep)
  obtain ⟨hsame, hrecalls⟩ := (h.off step hstep).steady hfaithful hready _ hentry
  obtain ⟨hold, -⟩ := hsplit.steady hfaithful (fun member hmember key hkey =>
    hsteady member hmember key (List.mem_append_left _ hkey)) step.1
    (List.mem_map_of_mem hstep) former hmem
  rw [← hat.label] at hold
  refine ⟨List.forall_mem_append.mpr ⟨hold, List.forall_mem_singleton.mpr ?_⟩, ?_⟩
  · rw [← (h.stands hsplit hpart hstate).source]
    exact hsame
  · exact hrecalls.congr_read fun key => by rw [List.mem_append, List.mem_append, or_comm]

end Once

/-- **Splitting every part once more is adding a split.** -/
theorem SplitBy.groupBy (h : SplitBy disk start now members splits parts grouping)
    (hnodup : members.Nodup) (hrun : grouping.groupBy keys disk now = (.ok result, after)) :
    ∃ tuple parts, SplitBy disk start after members (splits ++ [(keys, tuple)]) parts result := by
  have hinvariant := h.invariant
  rw [← List.append_nil (parts.flatMap _)] at hinvariant
  obtain ⟨steps, rfl, hsteps, hresult, hafter⟩ := Invariant.mapParts
    (fun states => frameOf (states.map Prod.snd)) (List.map Prod.snd)
    (List.map fun entry => entry.2.2) (SplitOff disk start (splits.flatMap Prod.fst) keys)
    (fun _ _ _ _ _ _ hnow hmade => hnow.splitOff hmade) h.frames hinvariant hrun
  obtain ⟨tuple, honce⟩ := h.exists_splitOnce hnodup hsteps
  refine ⟨tuple, splitAgain keys tuple (steps.map Step.next), hresult.trans honce.frames, ?labels,
    fun part hpart state hstate => honce.stands h hpart hstate, ?steady, ?invariant⟩
  case labels => rw [honce.labels, h.labels, partsBy_append]
  case steady =>
    intro hfaithful hsteady part hpart state hstate
    rw [List.flatMap_append, List.flatMap_singleton] at hsteady ⊢
    exact honce.steady h hfaithful hsteady hpart hstate
  case invariant =>
    rw [List.append_nil] at hafter
    apply hafter.perm ((perm_splitAgain _ _ _).trans (.of_eq _))
    rw [List.flatMap_map]
    simp only [Step.next, List.map_map, Function.comp_def]

/-- A chain of splits, one level after the other. -/
theorem SplitBy.groupByLevels (levels : List (List String))
    (h : SplitBy disk start now members splits parts grouping) (hnodup : members.Nodup)
    (hrun : grouping.groupByLevels levels disk now = (.ok result, after)) :
    ∃ more parts, more.map Prod.fst = levels ∧
      SplitBy disk start after members (splits ++ more) parts result := by
  induction levels generalizing splits parts grouping now with
  | nil =>
    cases hrun
    exact ⟨[], parts, rfl, by rwa [List.append_nil]⟩
  | cons keys levels ih =>
    obtain ⟨split, between, hsplit, hrest⟩ := Reading.bind_eq_ok.mp hrun
    obtain ⟨tuple, first, hfirst⟩ := h.groupBy hnodup hsplit
    obtain ⟨more, last, hmore, hlast⟩ := ih hfirst hrest
    rw [List.append_assoc] at hlast
    exact ⟨(keys, tuple) :: more, last, congrArg (List.cons keys) hmore, hlast⟩

end Tracked

namespace Frame

open Tracked

variable {disk : Disk} {before grouped : Shelf} {frame : Frame} {keys : List String}
  {levels : List (List String)} {grouping : Grouping}

/-- Before the first split a frame is a single part, and every row stands for itself. -/
theorem Owned.splitBy_whole (h : frame.Owned before) (disk : Disk) :
    SplitBy disk before before frame.rows.zipIdx []
      [([], frame.rows.zipIdx.map fun member => (member, ⟨member.1, member.1, []⟩))]
      (.whole frame) where
  frames := by
    simp [Grouping.parts, frameOf, Function.comp_def]
  labels := by simp [partsBy, Function.comp_def]
  stands part hpart state hstate := by
    obtain rfl := List.mem_singleton.mp hpart
    obtain ⟨member, -, rfl⟩ := List.mem_map.mp hstate
    exact ⟨rfl, by simp, by simp⟩
  steady _ _ part hpart state hstate := by
    obtain rfl := List.mem_singleton.mp hpart
    obtain ⟨member, -, rfl⟩ := List.mem_map.mp hstate
    exact ⟨by simp, recalls_fresh disk before member.1⟩
  invariant := by
    have hrows := congrArg (List.map fun row => (⟨row, row, []⟩ : Tracked))
      (List.zipIdx_map_fst 0 frame.rows)
    rw [List.map_map] at hrows
    rw [List.flatMap_singleton, List.map_map]
    exact hrows ▸ h.invariant disk

/-- **A chain of splits makes the parts that the rows have by the tuples that were read.** -/
theorem Owned.splitBy (h : frame.Owned before)
    (hchain : frame.groupByChain keys levels disk before = (.ok grouping, grouped)) :
    ∃ splits parts, splits.map Prod.fst = keys :: levels ∧
      SplitBy disk before grouped frame.rows.zipIdx splits parts grouping := by
  have hlevels : (Grouping.whole frame).groupByLevels (keys :: levels) disk before =
      (.ok grouping, grouped) := by
    rw [Grouping.groupByLevels, Grouping.groupBy, Grouping.mapFrames]
    exact hchain
  have hnodup : frame.rows.zipIdx.Nodup := by
    apply List.Nodup.of_map Prod.snd
    rw [List.zipIdx_map_snd]
    exact List.nodup_range'
  exact (h.splitBy_whole disk).groupByLevels (keys :: levels) hnodup hlevels

end Frame

end Logbook
