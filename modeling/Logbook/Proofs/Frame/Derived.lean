import Logbook.Proofs.Frame.Apply
import Logbook.Proofs.Frame.Arranged
import Logbook.Proofs.Row.Settled

/-!
# Rows in derived sets

Splits, filters, selections, sorts and ungroupings lead from one set to another
(`Grouping.Derived`).  Every row of the last stands for a row of the first, and no two for the same
one (`Grouping.Derived.standsFor`): it gives values equal to those that the row held.  So a computed
field that has been read gives its value there too, and its function is not asked again
(`Row.settles`).

## Strategy

A leaf goes on for another one if it stands for whatever that one stood for (`Leaf.Goes`), so
operations can be put one after the other (`Grouping.Moves`).  Most of them copy some rows in some
order (`Frame.moves_copies`).  A split also writes: its tuple comes back into the rows when they are
ungrouped.  As a row is copied after its tuple has been read, the copy holds the values of its own
tuple, which equals that of its group (`Row.Knows`), so writing does not change what a leaf stands
for (`Leaf.goes_of_update`).
-/

namespace Logbook

/-! ## Items that stem from others -/

/-- Every item stems from an origin, and no two from the same one. -/
def Stems {α β : Type} (R : α → β → Prop) (origins : List α) (items : List β) : Prop :=
  ∃ taken : List α, taken.Subperm origins ∧ List.Forall₂ R taken items

section Stems

variable {α β γ : Type} {R : α → β → Prop} {S : β → γ → Prop} {T : α → γ → Prop}
  {origins : List α} {items : List β} {last : List γ}

theorem stems_map {list : List γ} (f : γ → α) (g : γ → β)
    (hsubperm : (list.map f).Subperm origins) (h : ∀ item ∈ list, R (f item) (g item)) :
    Stems R origins (list.map g) := by
  refine ⟨list.map f, hsubperm, ?_⟩
  rw [List.forall₂_map_left_iff, List.forall₂_map_right_iff, List.forall₂_same]
  exact h

theorem Stems.append {others : List α} {more : List β} (h : Stems R origins items)
    (hmore : Stems R others more) : Stems R (origins ++ others) (items ++ more) := by
  obtain ⟨taken, hsubperm, hitems⟩ := h
  obtain ⟨next, hnext, hothers⟩ := hmore
  obtain ⟨former, hperm, hsublist⟩ := hsubperm
  obtain ⟨latter, hpermNext, hsublistNext⟩ := hnext
  exact ⟨taken ++ next, ⟨former ++ latter, hperm.append hpermNext, hsublist.append hsublistNext⟩,
    List.rel_append hitems hothers⟩

theorem Stems.imp {R' : α → β → Prop} (h : Stems R origins items)
    (himp : ∀ origin item, R origin item → R' origin item) : Stems R' origins items := by
  obtain ⟨taken, hsubperm, hitems⟩ := h
  exact ⟨taken, hsubperm, hitems.imp himp⟩

theorem exists_forall₂_of_sublist {fewer : List β} (h : List.Forall₂ R origins items)
    (hfewer : fewer.Sublist items) :
    ∃ former : List α, former.Sublist origins ∧ List.Forall₂ R former fewer := by
  induction hfewer generalizing origins with
  | slnil =>
    cases h
    exact ⟨[], .slnil, .nil⟩
  | cons item _ ih =>
    cases h with
    | cons _ hrest =>
      obtain ⟨former, hformer, hrelated⟩ := ih hrest
      exact ⟨former, hformer.cons _, hrelated⟩
  | cons_cons item _ ih =>
    cases h with
    | cons hitem hrest =>
      obtain ⟨former, hformer, hrelated⟩ := ih hrest
      exact ⟨_ :: former, hformer.cons_cons _, .cons hitem hrelated⟩

theorem Stems.exists_of_mem (h : Stems R origins items) {item : β} (hitem : item ∈ items) :
    ∃ origin ∈ origins, R origin item := by
  obtain ⟨taken, hsubperm, hitems⟩ := h
  obtain ⟨position, hposition, rfl⟩ := List.getElem_of_mem hitem
  have htaken : position < taken.length := hitems.length_eq ▸ hposition
  exact ⟨taken[position], hsubperm.subset (List.getElem_mem htaken),
    hitems.get htaken hposition⟩

theorem Stems.map {f : β → γ} (h : Stems R origins items)
    (himp : ∀ origin item, R origin item → T origin (f item)) :
    Stems T origins (items.map f) := by
  obtain ⟨taken, hsubperm, hitems⟩ := h
  exact ⟨taken, hsubperm, List.forall₂_map_right_iff.mpr (hitems.imp himp)⟩

/-- Whatever is taken from related items is related to what is taken from the others. -/
theorem exists_forall₂_of_subperm {taken : List β} (h : List.Forall₂ R origins items)
    (htaken : taken.Subperm items) :
    ∃ former : List α, former.Subperm origins ∧ List.Forall₂ R former taken := by
  obtain ⟨fewer, hperm, hfewer⟩ := htaken
  obtain ⟨former, hformer, hrelated⟩ := exists_forall₂_of_sublist h hfewer
  obtain ⟨permuted, hpermuted, hback⟩ := List.perm_comp_forall₂ hperm.symm hrelated.flip
  exact ⟨permuted, hback.subperm.trans hformer.subperm, hpermuted.flip⟩

theorem Stems.trans (h : Stems R origins items) (hlast : Stems S items last)
    (htrans : ∀ origin item next, R origin item → S item next → T origin next) :
    Stems T origins last := by
  obtain ⟨taken, hsubperm, hitems⟩ := h
  obtain ⟨middle, hmiddle, hnext⟩ := hlast
  obtain ⟨former, hformer, hrelated⟩ := exists_forall₂_of_subperm hitems hmiddle
  refine ⟨former, hformer.trans hsubperm, ?_⟩
  clear hmiddle hformer
  induction hrelated generalizing last with
  | nil =>
    cases hnext
    exact .nil
  | cons hitem _ ih =>
    cases hnext with
    | cons hstep hrest => exact .cons (htrans _ _ _ hitem hstep) (ih hrest)

end Stems

/-! ## Leaves that stand for rows -/

/-- A value that is to be written into a row equals the one that the row holds at the key, now
and later. -/
def Row.Knows (shelf : Shelf) (row : Row) (field : String × Value) : Prop :=
  row.Quiet shelf field.1 ∧
    ∀ held, row.held? shelf field.1 = some held → field.2.same held = true

theorem Row.Becomes.knows {now after : Shelf} {row later : Row} {field : String × Value}
    (h : Becomes now after row later) (hknows : row.Knows now field) : later.Knows after field := by
  obtain ⟨hquiet, hheld⟩ := h.quiet hknows.1
  exact ⟨hquiet, fun held hlater => hknows.2 held (hheld ▸ hlater)⟩

namespace Leaf

variable {disk : Disk} {start now after last : Shelf} {origin row later : Row} {leaf next : Leaf}

/-- A leaf that stands for a row at some earlier time: it holds values equal to those that the
row held, and nothing else is written into it. -/
structure StandsFor (start now : Shelf) (origin : Row) (leaf : Leaf) : Prop where
  id : leaf.2.id = origin.id
  metrics : leaf.2.metrics = origin.metrics
  artifacts : leaf.2.artifacts = origin.artifacts
  holds (key : String) (value : Value) (hheld : origin.held? start key = some value) :
    ∃ given, leaf.2.held? now key = some given ∧ given.same value = true
  knows (field : String × Value) (hfield : field ∈ leaf.1) : leaf.2.Knows now field

/-- A leaf at some time and a leaf at a later one that goes on for it. -/
def Goes (now after : Shelf) (leaf next : Leaf) : Prop :=
  ∀ start origin, StandsFor start now origin leaf → StandsFor start after origin next

/-- More may be written into a row of what it knows. -/
theorem goes_of_becomes (h : row.Becomes now after later) {fields : List (String × Value)}
    (hfields : ∀ field ∈ fields, later.Knows after field) (outer : List (String × Value)) :
    Goes now after (outer, row) (fields ++ outer, later) := fun start origin hstands =>
  { id := h.id.trans hstands.id
    metrics := h.metrics.trans hstands.metrics
    artifacts := h.artifacts.trans hstands.artifacts
    holds := fun key value hheld => by
      obtain ⟨given, hgiven, hsame⟩ := hstands.holds key value hheld
      exact ⟨given, h.held key given hgiven, hsame⟩
    knows := List.forall_mem_append.mpr
      ⟨hfields, fun field hfield => h.knows (hstands.knows field hfield)⟩ }

theorem goes_of_later (hlater : now.Later disk after) (leaf : Leaf) : Goes now after leaf leaf :=
  goes_of_becomes (Row.becomes_of_later hlater) (List.forall_mem_nil _) leaf.1

/-- What is to be written may be written, as the row holds equal values. -/
theorem goes_of_update (leaf : Leaf) : Goes now now leaf ([], leaf.2.update leaf.1) :=
  fun start origin hstands =>
  { id := (leaf.2.id_update leaf.1).trans hstands.id
    metrics := (leaf.2.metrics_update leaf.1).trans hstands.metrics
    artifacts := (leaf.2.artifacts_update leaf.1).trans hstands.artifacts
    holds := fun key value hheld => by
      obtain ⟨given, hgiven, hsame⟩ := hstands.holds key value hheld
      -- A field that is written had an equal value before, and the others stay.
      by_cases hkey : key ∈ leaf.1.map Prod.fst
      · obtain ⟨written, hmem, hslot⟩ := Row.exists_slot_of_update hkey
        refine ⟨written, Row.held?_of_value (hslot leaf.2) now, ?_⟩
        exact Value.same_trans ((hstands.knows _ hmem).2 given hgiven) hsame
      · exact ⟨given, (Row.held?_congr (leaf.2.slot_of_update hkey) now).trans hgiven, hsame⟩
    knows := List.forall_mem_nil _ }

end Leaf

namespace Grouping

variable {disk : Disk} {now after last : Shelf} {grouping result : Grouping}
  {outer : List (String × Value)}

/-- The leaves of a grouping at some time, and leaves at a later time that go on for them, each for
another one. -/
structure Moves (disk : Disk) (outer : List (String × Value)) (now : Shelf) (grouping : Grouping)
    (after : Shelf) (result : Grouping) : Prop where
  later : now.Later disk after
  stems : Stems (Leaf.Goes now after) (grouping.leaves outer) (result.leaves outer)

theorem Moves.trans {final : Grouping} (h : Moves disk outer now grouping after result)
    (hfinal : Moves disk outer after result last final) :
    Moves disk outer now grouping last final where
  later := h.later.trans hfinal.later
  stems := h.stems.trans hfinal.stems fun _ _ _ hgoes hnext start origin hstands =>
    hnext start origin (hgoes start origin hstands)

theorem moves_of_subperm (hlater : now.Later disk after)
    (hsubperm : (result.leaves outer).Subperm (grouping.leaves outer)) :
    Moves disk outer now grouping after result where
  later := hlater
  stems := by
    rw [← List.map_id (result.leaves outer)] at hsubperm ⊢
    exact stems_map id id hsubperm fun leaf _ => Leaf.goes_of_later hlater leaf

/-- Writing what the tuples say makes one frame of the leaves. -/
theorem moves_rows (grouping : Grouping) (disk : Disk) (now : Shelf) :
    Moves disk [] now grouping now (whole ⟨grouping.rows⟩) where
  later := .refl
  stems := by
    rw [leaves, rows_eq_leaves, List.map_map]
    exact stems_map id _ (List.map_id _ ▸ List.Subperm.refl _) fun leaf _ =>
      Leaf.goes_of_update leaf

/-! ## Trees -/

section Trees

variable {change : Frame → Reading Grouping}

mutual

/-- A change that goes on for the rows of each frame goes on for the leaves. -/
theorem moves_mapFrames
    (hchange : ∀ {outer frame result now after}, change frame disk now = (.ok result, after) →
      Moves disk outer now (whole frame) after result) {outer : List (String × Value)}
    {grouping result : Grouping} {now after : Shelf}
    (hrun : grouping.mapFrames change disk now = (.ok result, after)) :
    Moves disk outer now grouping after result := by
  cases grouping with
  | whole frame =>
    rw [mapFrames] at hrun
    exact hchange hrun
  | split keys groups =>
    rw [mapFrames] at hrun
    obtain ⟨results, between, hresults, hpure⟩ := Reading.bind_eq_ok.mp hrun
    cases hpure
    exact moves_mapGroups hchange hresults

theorem moves_mapGroups
    (hchange : ∀ {outer frame result now after}, change frame disk now = (.ok result, after) →
      Moves disk outer now (whole frame) after result) {outer : List (String × Value)}
    {keys : List String} {groups results : List (List Value × Grouping)} {now after : Shelf}
    (hrun : mapGroups change groups disk now = (.ok results, after)) :
    Moves disk outer now (split keys groups) after (split keys results) := by
  cases groups with
  | nil =>
    rw [mapGroups] at hrun
    cases hrun
    exact moves_of_subperm .refl (List.Subperm.refl _)
  | cons group groups =>
    obtain ⟨tuple, group⟩ := group
    rw [mapGroups] at hrun
    obtain ⟨first, between, hfirst, hrest⟩ := Reading.bind_eq_ok.mp hrun
    obtain ⟨rest, last, hlast, hpure⟩ := Reading.bind_eq_ok.mp hrest
    cases hpure
    have hhere : Moves disk (keys.zip tuple ++ outer) now group between first :=
      moves_mapFrames hchange hfirst
    have hthere : Moves disk outer between (split keys groups) after (split keys rest) :=
      moves_mapGroups hchange hlast
    -- The first group waits while the others are changed, and they while it is.
    refine ⟨hhere.later.trans hthere.later, ?_⟩
    rw [leaves, leavesOfGroups, leaves, leavesOfGroups]
    refine .append (hhere.stems.imp fun leaf next hgoes start origin hstands => ?_)
      (hthere.stems.imp fun leaf next hgoes start origin hstands => ?_)
    · exact Leaf.goes_of_later hthere.later next start origin (hgoes start origin hstands)
    · exact hgoes start origin (Leaf.goes_of_later hhere.later leaf start origin hstands)

end

theorem moves_mapWhole {change : Frame → Reading Frame}
    (hchange : ∀ {outer frame result now after}, change frame disk now = (.ok result, after) →
      Moves disk outer now (whole frame) after (whole result))
    (hrun : grouping.mapWhole change disk now = (.ok result, after)) :
    Moves disk outer now grouping after result := by
  refine moves_mapFrames (fun {outer frame result now after} hrun => ?_) hrun
  obtain ⟨changed, between, hchanged, hpure⟩ := Reading.bind_eq_ok.mp hrun
  cases hpure
  exact hchange hchanged

end Trees

end Grouping

/-! ## Copying and reading rows -/

namespace Row

variable {disk : Disk} {row : Row}

theorem widens_becomes (disk : Disk) : Shelf.Widens disk Becomes :=
  fun _ _ _ _ _ _ hbefore hafter h =>
    (becomes_of_later hbefore).trans (h.trans (becomes_of_later hafter))

theorem relates_copy (disk : Disk) : Reading.Relates disk Becomes copy :=
  fun _ _ _ _ hcopy => ⟨Shelf.later_copy hcopy, becomes_of_copy hcopy⟩

theorem Knows.of_same {shelf : Shelf} {field other : String × Value} (h : row.Knows shelf other)
    (hkey : field.1 = other.1) (hsame : field.2.same other.2 = true) : row.Knows shelf field := by
  refine ⟨hkey ▸ h.1, fun held hheld => ?_⟩
  exact Value.same_trans hsame (h.2 held (hkey ▸ hheld))

theorem widens_knows (disk : Disk) (row : Row) :
    Shelf.Widens disk fun _ after key value => row.Knows after (key, value) :=
  fun _ _ _ _ _ _ _ hafter h => (becomes_of_later hafter).knows h

/-- What has been read from a row for a grouping, the row knows. -/
theorem relates_groupingValue (disk : Disk) (row : Row) (position : Nat) :
    Reading.Relates disk (fun _ after key value => row.Knows after (key, value))
      (row.groupingValue position) := by
  intro key value now after hrun
  obtain ⟨found, between, hget, hrest⟩ := Reading.bind_eq_ok.mp hrun
  cases found <;> cases hrest
  obtain ⟨hquiet, hheld⟩ := held?_of_get? hget
  exact ⟨Shelf.later_get? hget, hquiet, fun held hother =>
    hheld held hother ▸ Value.same_refl value⟩

/-- The copy of a row that has been read goes on for it, and knows its tuple. -/
structure ReadAs (keys : List String) (before after : Shelf) (item : Row × Nat)
    (pair : List Value × Row) : Prop where
  becomes : item.1.Becomes before after pair.2
  knows (field : String × Value) (hfield : field ∈ keys.zip pair.1) : pair.2.Knows after field

theorem widens_readAs (disk : Disk) (keys : List String) : Shelf.Widens disk (ReadAs keys) :=
  fun _ _ _ _ _ _ hbefore hafter h =>
    { becomes := widens_becomes disk _ _ _ _ _ _ hbefore hafter h.becomes
      knows := fun field hfield => (becomes_of_later hafter).knows (h.knows field hfield) }

theorem relates_grouped (disk : Disk) (keys : List String) :
    Reading.Relates disk (ReadAs keys) fun item => item.1.grouped keys item.2 := by
  rintro ⟨row, position⟩ ⟨tuple, copy⟩ now after hrun
  obtain ⟨values, read, hvalues, hrest⟩ := Reading.bind_eq_ok.mp hrun
  obtain ⟨⟨⟩, released, hrelease, hrest⟩ := Reading.bind_eq_ok.mp hrest
  obtain ⟨copied, last, hcopy, hpure⟩ := Reading.bind_eq_ok.mp hrest
  cases hpure
  obtain ⟨hread, hknows⟩ :=
    (relates_groupingValue disk row position).mapM (widens_knows disk row) keys _ _ _ hvalues
  have hreleased := Shelf.later_release hrelease
  have hcopied : row.Becomes read after copy :=
    (becomes_of_later hreleased).trans (becomes_of_copy hcopy)
  refine ⟨hread.trans (hreleased.trans (Shelf.later_copy hcopy)),
    (becomes_of_later hread).trans hcopied, fun field hfield => ?_⟩
  exact hcopied.knows ((List.forall₂_iff_zip.mp hknows).2 hfield)

end Row

/-! ## Frames -/

namespace Frame

open Grouping (Moves whole)

variable {disk : Disk} {now between after : Shelf} {frame result : Frame}
  {outer : List (String × Value)} {keys : List String}

/-- Copies of some rows of a frame go on for them. -/
theorem moves_copies {taken copies : List Row} (hbetween : now.Later disk between)
    (hcopies : Row.copies taken disk between = (.ok copies, after))
    (htaken : taken.Subperm frame.rows) :
    Moves disk outer now (whole frame) after (whole ⟨copies⟩) where
  later := hbetween.trans (Shelf.later_copies hcopies)
  stems := by
    obtain ⟨-, hbecomes⟩ := (Row.relates_copy disk).mapM (Row.widens_becomes disk) _ _ _ _ hcopies
    obtain ⟨former, hperm, hsublist⟩ := htaken
    refine ⟨taken.map (outer, ·), ⟨former.map (outer, ·), hperm.map _, hsublist.map _⟩, ?_⟩
    rw [Grouping.leaves, List.forall₂_map_left_iff, List.forall₂_map_right_iff]
    refine hbecomes.imp fun row copy h => ?_
    exact Leaf.goes_of_becomes ((Row.becomes_of_later hbetween).trans h) (List.forall_mem_nil _)
      outer

theorem moves_copy (hrun : frame.copy disk now = (.ok result, after)) :
    Moves disk outer now (whole frame) after (whole result) := by
  obtain ⟨copies, last, hcopies, hpure⟩ := Reading.bind_eq_ok.mp hrun
  cases hpure
  exact moves_copies .refl hcopies (List.Subperm.refl _)

theorem moves_sort {ascending : Bool}
    (hrun : frame.sort keys ascending disk now = (.ok result, after)) :
    Moves disk outer now (whole frame) after (whole result) := by
  obtain ⟨⟨⟩, checked, hcheck, hrest⟩ := Reading.bind_eq_ok.mp hrun
  obtain rfl : now = checked := congrArg Prod.snd hcheck
  obtain ⟨tuples, between, hscan, hrest⟩ := Reading.bind_eq_ok.mp hrest
  obtain ⟨copies, last, hcopies, hpure⟩ := Reading.bind_eq_ok.mp hrest
  cases hpure
  refine moves_copies (Shelf.later_scan hscan) hcopies ?_
  have hperm := (List.mergeSort_perm (tuples.zip frame.rows) fun left right =>
    if ascending then Value.orderItems left.1 right.1 != .gt
    else Value.orderItems right.1 left.1 != .gt).map Prod.snd
  rw [List.map_snd_zip (Nat.le_of_eq (Reading.length_of_mapM hscan).symm)] at hperm
  exact hperm.subperm

theorem moves_filter {mapping : Mapping}
    (hrun : frame.filter mapping disk now = (.ok result, after)) :
    Moves disk outer now (whole frame) after (whole result) := by
  obtain ⟨-, hnone, rfl⟩ | ⟨-, cells, between, items, hscan, -, hlength, hcopies⟩ :=
    filter_eq_ok hrun
  · refine Grouping.moves_of_subperm .refl ?_
    rw [Grouping.leaves, hnone]
    exact List.nil_subperm
  · refine moves_copies (Shelf.later_scan hscan) hcopies ?_
    have hkept := kept_sublist (frame.rows.zip (items.map Value.isTruthy))
    rw [List.map_fst_zip (by rw [List.length_map, hlength]; exact Nat.le_refl _)] at hkept
    exact hkept.subperm

theorem moves_groupBy {grouping : Grouping}
    (hrun : frame.groupBy keys disk now = (.ok grouping, after)) :
    Moves disk outer now (whole frame) after grouping := by
  obtain ⟨pairs, hpairs, rfl⟩ := groupBy_eq_ok hrun
  obtain ⟨hlater, hread⟩ :=
    (Row.relates_grouped disk keys).mapM (Row.widens_readAs disk keys) _ _ _ _ hpairs
  obtain ⟨hlength, hread⟩ := List.forall₂_iff_zip.mp hread
  -- Every row with its position, the tuple that was read from it and its copy.
  let reads := frame.rows.zipIdx.zip pairs
  have hrows : (reads.map fun read => read.1.1) = frame.rows := by
    have hitems : reads.map Prod.fst = frame.rows.zipIdx := List.map_fst_zip (Nat.le_of_eq hlength)
    have hrows := congrArg (List.map Prod.fst) hitems
    rw [List.map_map, List.zipIdx_map_fst] at hrows
    exact hrows
  let entries := reads.map fun read => (read.2.1, read)
  have hentries : pairs = entries.map fun entry => (entry.1, entry.2.2.2) := by
    rw [List.map_map]
    exact (List.map_snd_zip (Nat.le_of_eq hlength.symm)).symm
  refine ⟨hlater, ?_⟩
  rw [Grouping.leaves, Grouping.leaves, Grouping.leavesOfGroups_whole, flatMap_groupByTuple,
    hentries, partitionByTuple_map fun read : (Row × Nat) × List Value × Row => read.2.2,
    List.map_map]
  refine stems_map (fun entry => (outer, entry.2.1.1)) _ ?origins fun entry hentry => ?goes
  case origins =>
    have hperm := (partitionByTuple_perm entries).map fun read => (outer, read.1.1)
    rw [List.map_map, List.map_map, List.map_map] at hperm
    rw [← hrows, List.map_map]
    exact hperm.subperm
  case goes =>
    have hmem : entry.2 ∈ reads := by
      have hmem := (partitionByTuple_perm entries).mem_iff.mp (List.mem_map_of_mem hentry)
      rw [List.map_map] at hmem
      exact List.map_id reads ▸ hmem
    have hsame := sameItems_of_mem_partitionByTuple (fun read => read.2.1)
      (List.forall_mem_map.mpr fun read _ => rfl) entry hentry
    obtain ⟨hbecomes, hknows⟩ := hread hmem
    refine Leaf.goes_of_becomes hbecomes (fun field hfield => ?_) outer
    obtain ⟨given, hgiven, hvalue⟩ := Value.exists_of_mem_zip hsame hfield
    exact (hknows _ hgiven).of_same rfl hvalue

end Frame

/-! ## Groupings -/

namespace Grouping

variable {disk : Disk} {now after : Shelf} {grouping result : Grouping}
  {outer : List (String × Value)} {mapping : Mapping} {keys : List String}

theorem moves_copy (hrun : grouping.copy disk now = (.ok result, after)) :
    Moves disk outer now grouping after result :=
  moves_mapWhole Frame.moves_copy hrun

theorem moves_groupBy (hrun : grouping.groupBy keys disk now = (.ok result, after)) :
    Moves disk outer now grouping after result :=
  moves_mapFrames Frame.moves_groupBy hrun

theorem moves_groupByLevels {levels : List (List String)}
    (hrun : grouping.groupByLevels levels disk now = (.ok result, after)) :
    Moves disk outer now grouping after result := by
  induction levels generalizing grouping now with
  | nil =>
    cases hrun
    exact moves_of_subperm .refl (List.Subperm.refl _)
  | cons keys levels ih =>
    obtain ⟨split, between, hsplit, hrest⟩ := Reading.bind_eq_ok.mp hrun
    exact (moves_groupBy hsplit).trans (ih hrest)

theorem moves_filter (hrun : grouping.filter mapping disk now = (.ok result, after)) :
    Moves disk outer now grouping after result := by
  obtain ⟨filtered, hfiltered, rfl⟩ := exists_prune_of_filter hrun
  have hmoves : Moves disk outer now grouping after filtered :=
    moves_mapWhole Frame.moves_filter hfiltered
  refine hmoves.trans (moves_of_subperm .refl ?_)
  rw [leaves_prune]

theorem moves_select {tuples : List (List Value)}
    (hrun : grouping.select tuples disk now = (.ok result, after)) :
    Moves disk outer now grouping after result := by
  cases grouping with
  | whole frame => exact moves_copy hrun
  | split keys groups =>
    refine Moves.trans (moves_of_subperm .refl ?_) (moves_copy hrun)
    exact (sublist_leavesOfGroups outer keys List.filter_sublist).subperm

theorem moves_ungroup {frame : Frame} (hrun : grouping.ungroup disk now = (.ok frame, after)) :
    Moves disk [] now grouping after (whole frame) := by
  obtain ⟨copied, last, hcopied, hpure⟩ := Reading.bind_eq_ok.mp hrun
  cases hpure
  exact (moves_copy hcopied).trans (moves_rows copied disk after)

theorem moves_filterBy (hrun : grouping.filterBy mapping keys disk now = (.ok result, after)) :
    Moves disk [] now grouping after result := by
  obtain ⟨flat, flattened, hungroup, hrest⟩ := Reading.bind_eq_ok.mp hrun
  obtain ⟨regrouped, grouped, hsplit, hrest⟩ := Reading.bind_eq_ok.mp hrest
  obtain ⟨kept, filtered, hfilter, hrest⟩ := Reading.bind_eq_ok.mp hrest
  have hkept := (moves_ungroup hungroup).trans
    ((Frame.moves_groupBy hsplit).trans (moves_filter hfilter))
  exact hkept.trans ((moves_rows kept disk filtered).trans (moves_groupByLevels hrest))

end Grouping

theorem Frame.moves_filterByGroups {disk : Disk} {now after : Shelf} {frame result : Frame}
    {mapping : Mapping} {keys : List String}
    (hrun : frame.filterByGroups mapping keys disk now = (.ok result, after)) :
    Grouping.Moves disk [] now (.whole frame) after (.whole result) := by
  obtain ⟨split, grouped, hsplit, hrest⟩ := Reading.bind_eq_ok.mp hrun
  obtain ⟨kept, filtered, hfilter, hpure⟩ := Reading.bind_eq_ok.mp hrest
  cases hpure
  exact (moves_groupBy hsplit).trans
    ((Grouping.moves_filter hfilter).trans (Grouping.moves_rows kept disk after))

namespace Grouping

variable {disk : Disk} {start now after : Shelf} {grouping result : Grouping}

/-! ## Derived sets -/

/-- Whether an operation gives the same rows, or some of them. -/
def Operation.keepsRows : Operation → Bool
  | groupBy _ | filter _ _ | select _ | sort _ _ => true
  | mapCells _ | transform _ | aggregate _ | apply _ _ => false

/-- The sets that a chain of splits, filters, selections, sorts and ungroupings leads to, with the
shelf as it is then.  In between, any rows may be read, released and copied. -/
inductive Derived (disk : Disk) (grouping : Grouping) (start : Shelf) : Grouping → Shelf → Prop
  | refl : Derived disk grouping start grouping start
  | performed {operation : Operation} {before result : Grouping} {now after : Shelf}
      (hkeeps : operation.keepsRows = true) (h : Derived disk grouping start before now)
      (hrun : operation.perform before disk now = (.ok result, after)) :
      Derived disk grouping start result after
  | ungrouped {before : Grouping} {frame : Frame} {now after : Shelf}
      (h : Derived disk grouping start before now)
      (hrun : before.ungroup disk now = (.ok frame, after)) :
      Derived disk grouping start (whole frame) after
  | filtered {frame result : Frame} {mapping : Mapping} {keys : List String} {now after : Shelf}
      (h : Derived disk grouping start (whole frame) now)
      (hrun : frame.filterByGroups mapping keys disk now = (.ok result, after)) :
      Derived disk grouping start (whole result) after
  | later {result : Grouping} {now after : Shelf} (h : Derived disk grouping start result now)
      (hlater : now.Later disk after) : Derived disk grouping start result after

theorem moves_perform {operation : Operation} (hkeeps : operation.keepsRows = true)
    (hrun : operation.perform grouping disk now = (.ok result, after)) :
    Moves disk [] now grouping after result := by
  cases operation with
  | groupBy keys => exact moves_groupBy hrun
  | filter mapping groups =>
    cases groups with
    | none => exact moves_filter hrun
    | some keys => exact moves_filterBy hrun
  | select tuples => exact moves_select hrun
  | sort keys ascending => exact moves_mapWhole Frame.moves_sort hrun
  | mapCells | transform | aggregate | apply => cases hkeeps

theorem Derived.moves (h : Derived disk grouping start result now) :
    Moves disk [] start grouping now result := by
  induction h with
  | refl => exact moves_of_subperm .refl (List.Subperm.refl _)
  | performed hkeeps _ hrun ih => exact ih.trans (moves_perform hkeeps hrun)
  | ungrouped _ hrun ih => exact ih.trans (moves_ungroup hrun)
  | filtered _ hrun ih => exact ih.trans (Frame.moves_filterByGroups hrun)
  | later _ hlater ih => exact ih.trans (moves_of_subperm hlater (List.Subperm.refl _))

/-- The rows in the frames of a grouping. -/
def leafRows (grouping : Grouping) : List Row := (grouping.leaves []).map Prod.snd

/-- What the tuples of a derived set write is known to its rows. -/
theorem Derived.knows {frame : Frame} (h : Derived disk (whole frame) start grouping now)
    {leaf : Leaf} (hleaf : leaf ∈ grouping.leaves []) :
    ∀ field ∈ leaf.1, leaf.2.Knows now field := by
  obtain ⟨former, hformer, hgoes⟩ := h.moves.stems.exists_of_mem hleaf
  obtain ⟨row, -, rfl⟩ := List.mem_map.mp hformer
  have hself : Leaf.StandsFor start start row ([], row) :=
    ⟨rfl, rfl, rfl, fun _ value hheld => ⟨value, hheld, Value.same_refl value⟩,
      List.forall_mem_nil _⟩
  exact (hgoes start row hself).knows

end Grouping

/-- A row that stands for a row at some earlier time: from now on it gives values equal to those
that the other row held then, and nothing is loaded or computed for it. -/
structure Row.StandsFor (disk : Disk) (start now : Shelf) (row origin : Row) : Prop where
  id : row.id = origin.id
  metrics : row.metrics = origin.metrics
  artifacts : row.artifacts = origin.artifacts
  gives (key : String) (value : Value) (hheld : origin.held? start key = some value)
    (later : Shelf) (hlater : now.Later disk later) :
    ∃ given, row.get? key disk later = (.ok (some given), later) ∧ given.same value = true

theorem Leaf.StandsFor.row {disk : Disk} {start now : Shelf} {origin : Row} {leaf : Leaf}
    (h : StandsFor start now origin leaf) : leaf.2.StandsFor disk start now origin where
  id := h.id
  metrics := h.metrics
  artifacts := h.artifacts
  gives key value hheld later hlater := by
    obtain ⟨given, hgiven, hsame⟩ := h.holds key value hheld
    have hlast := (Row.becomes_of_later hlater).held key given hgiven
    exact ⟨given, Row.get?_of_held hlast disk, hsame⟩

/-- **Every row of a derived set stands for a row of the set that it is derived from.** -/
theorem Grouping.Derived.standsFor {disk : Disk} {begin start now : Shelf} {frame : Frame}
    {set result : Grouping} (hset : Derived disk (.whole frame) begin set start)
    (hresult : Derived disk set start result now) :
    Stems (fun origin row => row.StandsFor disk start now origin) set.leafRows
      result.leafRows := by
  have hself : Stems (Leaf.StandsFor start start) set.leafRows (set.leaves []) := by
    rw [← List.map_id (set.leaves [])]
    refine stems_map Prod.snd id (List.Subperm.refl _) fun leaf hleaf => ?_
    exact ⟨rfl, rfl, rfl, fun _ value hheld => ⟨value, hheld, Value.same_refl value⟩,
      hset.knows hleaf⟩
  have hstands : Stems (Leaf.StandsFor start now) set.leafRows (result.leaves []) :=
    hself.trans hresult.moves.stems fun origin leaf next h hgoes => hgoes start origin h
  exact hstands.map fun origin leaf h => h.row

namespace Row

/-! ## Settling -/

/-- A computed field settles on the first value that its function gives, in the row and in the
rows that stand for it in derived sets. -/
structure Settles (key : String) (source : Nat) (start : Row × Shelf) : Prop
    extends SettlesOnce key start where
  /-- In a set derived from one with the row, the row that stands for it gives an equal value, and
  nothing is computed. -/
  derived (uses : List Use) (hspares : ∀ use ∈ uses, use.Spares key) (value : Value)
    (hvalue : evaluations key start uses = [value]) (disk : Disk) (frame : Frame)
    (set result : Grouping) (begin now : Shelf)
    (hset : Grouping.Derived disk (.whole frame) begin set (after start uses).2)
    (hresult : Grouping.Derived disk set (after start uses).2 result now) :
    Stems (fun origin row => row.StandsFor disk (after start uses).2 now origin ∧
      (origin = (after start uses).1 → ∀ later, now.Later disk later →
        ∃ given, row.get? key disk later = (.ok (some given), later) ∧ given.same value = true))
      set.leafRows result.leafRows
  /-- The function is not called at all once every field that has it has a value. -/
  silent (uses : List Use) (hspent : (after start uses).2.Spent source) (disk : Disk)
    (set result : Grouping) (now : Shelf)
    (hresult : Grouping.Derived disk set (after start uses).2 result now) :
    now.sources[source]? = (after start uses).2.sources[source]?

/-- **A computed field that has not been read settles on the first value that its function
gives.** -/
theorem settles {row : Row} {shelf : Shelf} {key : String} {cell source : Nat}
    (hslot : row.slots.get? key = some (.computed cell))
    (hfresh : shelf.cells[cell]? = some ⟨source, none⟩) (hhoused : row.Housed shelf) :
    Settles key source (row, shelf) where
  toSettlesOnce := settlesOnce hslot hfresh hhoused
  derived uses hspares value hvalue disk frame set result begin now hset hresult := by
    have hkeeps := (keeps_of_fresh hslot hfresh hhoused).after hspares
    rw [List.nil_append, hvalue] at hkeeps
    refine (hset.standsFor hresult).imp fun origin row hstands => ⟨hstands, ?_⟩
    rintro rfl later hlater
    exact hstands.gives key value hkeeps.held later hlater
  silent uses hspent disk set result now hresult :=
    (hspent.later hresult.moves.later).2

/-- A function that fails at first and then counts its calls. -/
def retried (calls : Nat) (_ : String) : Except Error Value :=
  if calls ≤ 1 then .error .files else .ok (.int calls.toInt64)

/-- A row with a field that is computed by such a function. -/
def scored : Row × Shelf :=
  let added := ({} : Shelf).addComputed retried
  ((ofFields (some 1) [("seed", .int 7)]).insert "score" (.computed added.1), added.2)

/-- The first read fails, the second one settles the field, and the third one does not ask. -/
theorem settles_scored :
    (scored.1.slots.get? "score" = some (.computed 0) ∧ scored.2.cells[0]? = some ⟨0, none⟩ ∧
      scored.1.Housed scored.2) ∧
    Settles "score" 0 scored ∧
    evaluations "score" scored [.get (.empty ⟨"/"⟩) "score"] = [] ∧
    evaluations "score" scored [.get (.empty ⟨"/"⟩) "score", .insert "seed" (.int 8),
      .materialize (.empty ⟨"/"⟩), .get (.empty ⟨"/"⟩) "score"] = [.int 2] := by
  have hplain : (ofFields (some 1) [("seed", .int 7)]).Housed {} := by
    refine ⟨fun key cell hcell => ?_, fun key other cell hcell => ?_⟩ <;>
      · rw [cellAt?_ofFields] at hcell
        cases hcell
  have hhoused : scored.1.Housed scored.2 := hplain.insert_computed "score" retried
  have hslot : scored.1.slots.get? "score" = some (.computed 0) := SortedMap.get?_insert_self _ _ _
  exact ⟨⟨hslot, rfl, hhoused⟩, settles hslot rfl hhoused, rfl, rfl⟩

end Row

end Logbook
