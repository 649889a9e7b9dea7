import Logbook.Frame.Grouping
import Logbook.Proofs.Value.Meaning

/-!
# Grouping by tuples is a stable partition

`groupByTuple` first collects the distinct tuples and then filters the pairs once for
each of them.  `partitionByTuple` says what comes out of it: the first pair, then the
later pairs with an equal tuple in their order, then the rest in the same way.  Every
item is written with the tuple of the first pair of its group.

## Strategy

Both functions recurse on what is left when the first group is taken away
(`groupByTuple_cons`).  That needs equality of tuples to be transitive: a pair that
belongs to a later group must not belong to the first one too.
-/

namespace Logbook

variable {α β : Type}

/-- The pairs with a tuple. -/
def alike (tuple : List Value) (pairs : List (List Value × α)) : List (List Value × α) :=
  pairs.filter fun pair => Value.sameItems tuple pair.1

/-- The pairs with another tuple. -/
def others (tuple : List Value) (pairs : List (List Value × α)) : List (List Value × α) :=
  pairs.filter fun pair => !Value.sameItems tuple pair.1

theorem length_others_le (tuple : List Value) (pairs : List (List Value × α)) :
    (others tuple pairs).length ≤ pairs.length := List.length_filter_le _ pairs

/-- Pairs group by group, in the order in which the tuples first appear.  Each item gets
the tuple of the first pair of its group. -/
def partitionByTuple : List (List Value × α) → List (List Value × α)
  | [] => []
  | (tuple, item) :: pairs =>
      (tuple, item) ::
        (((alike tuple pairs).map fun pair => (tuple, pair.2)) ++
          partitionByTuple (others tuple pairs))
termination_by pairs => pairs.length
decreasing_by
  exact Nat.lt_succ_of_le (length_others_le tuple pairs)

/-! ## Distinct tuples -/

/-- Each tuple where it first appears. -/
def firstTuples : List (List Value × α) → List (List Value)
  | [] => []
  | (tuple, _) :: pairs => tuple :: firstTuples (others tuple pairs)
termination_by pairs => pairs.length
decreasing_by
  exact Nat.lt_succ_of_le (length_others_le tuple pairs)

theorem exists_mem_of_mem_firstTuples (pairs : List (List Value × α)) :
    ∀ tuple ∈ firstTuples pairs, ∃ item, (tuple, item) ∈ pairs := by
  induction pairs using firstTuples.induct with
  | case1 => simp [firstTuples]
  | case2 first item pairs ih =>
    intro tuple htuple
    rw [firstTuples] at htuple
    obtain rfl | hrest := List.mem_cons.mp htuple
    · exact ⟨item, List.mem_cons_self⟩
    · obtain ⟨found, hfound⟩ := ih tuple hrest
      exact ⟨found, List.mem_cons_of_mem _ (List.mem_filter.mp hfound).1⟩

/-- What is collected behind some tuples: the first ones that equal none of them. -/
private theorem foldl_seen (pairs : List (List Value × α)) (seen : List (List Value)) :
    (pairs.map Prod.fst).foldl
        (fun seen tuple => if seen.any (Value.sameItems · tuple) then seen else seen ++ [tuple])
        seen =
      seen ++ firstTuples (pairs.filter fun pair => !seen.any (Value.sameItems · pair.1)) := by
  induction pairs generalizing seen with
  | nil => simp [firstTuples]
  | cons pair pairs ih =>
    rw [List.map_cons, List.foldl_cons, ih]
    by_cases hseen : seen.any (Value.sameItems · pair.1)
    · rw [if_pos hseen, List.filter_cons_of_neg (by simp [hseen])]
    · rw [if_neg hseen, List.filter_cons_of_pos (by simp [hseen]), firstTuples,
        List.append_assoc, List.singleton_append, others, List.filter_filter]
      simp only [List.any_append, List.any_cons, List.any_nil, Bool.or_false, Bool.not_or,
        Bool.and_comm]

/-- One group for each of the first tuples. -/
theorem groupByTuple_eq (pairs : List (List Value × α)) :
    groupByTuple pairs = (firstTuples pairs).map fun tuple =>
      (tuple, (alike tuple pairs).map Prod.snd) := by
  have hall : (pairs.filter fun pair => !([] : List (List Value)).any (Value.sameItems · pair.1)) =
      pairs := List.filter_eq_self.mpr fun _ _ => rfl
  unfold groupByTuple
  rw [foldl_seen, List.nil_append, hall]
  rfl

/-! ## Taking the first group away -/

/-- A pair of a later group does not have the tuple of the first one. -/
theorem alike_cons_of_later {tuple other : List Value} (item : α) (pairs : List (List Value × α))
    (hother : Value.sameItems tuple other = false) :
    alike other ((tuple, item) :: pairs) = alike other (others tuple pairs) := by
  -- A tuple that equals both would make them equal.
  have hlater : ∀ pair : List Value × α, Value.sameItems other pair.1 = true →
      Value.sameItems tuple pair.1 = false := by
    intro pair hpair
    rw [← Bool.not_eq_true] at hother ⊢
    exact fun htuple => hother (Value.sameItems_trans htuple (Value.sameItems_symm hpair))
  have hfirst : alike other ((tuple, item) :: pairs) = alike other pairs := by
    refine List.filter_cons_of_neg fun hsame => ?_
    exact Bool.false_ne_true (hother.symm.trans (Value.sameItems_symm hsame))
  rw [hfirst, alike, alike, others, List.filter_filter]
  refine List.filter_congr fun pair _ => ?_
  cases hpair : Value.sameItems other pair.1 with
  | false => rfl
  | true => rw [hlater pair hpair]; rfl

theorem groupByTuple_cons (tuple : List Value) (item : α) (pairs : List (List Value × α)) :
    groupByTuple ((tuple, item) :: pairs) =
      (tuple, item :: (alike tuple pairs).map Prod.snd) :: groupByTuple (others tuple pairs) := by
  have hhead : alike tuple ((tuple, item) :: pairs) = (tuple, item) :: alike tuple pairs :=
    List.filter_cons_of_pos (Value.sameItems_refl tuple)
  rw [groupByTuple_eq, groupByTuple_eq, firstTuples, List.map_cons, hhead, List.map_cons]
  refine congrArg (List.cons _) (List.map_congr_left fun other hother => ?_)
  obtain ⟨found, hfound⟩ := exists_mem_of_mem_firstTuples _ other hother
  have hdiffers : Value.sameItems tuple other = false := by
    simpa using (List.mem_filter.mp hfound).2
  rw [alike_cons_of_later item pairs hdiffers]

/-- **Writing each group's tuple next to its items gives the stable partition.** -/
theorem flatMap_groupByTuple (pairs : List (List Value × α)) :
    ((groupByTuple pairs).flatMap fun group => group.2.map (Prod.mk group.1)) =
      partitionByTuple pairs := by
  induction pairs using partitionByTuple.induct with
  | case1 => simp [groupByTuple, partitionByTuple]
  | case2 tuple item pairs ih =>
    rw [groupByTuple_cons, partitionByTuple, List.flatMap_cons, ih, List.map_cons, List.map_map,
      List.cons_append]
    rfl

/-! ## What a partition keeps -/

/-- A partition looks at tuples only. -/
theorem partitionByTuple_map (change : α → β) (pairs : List (List Value × α)) :
    partitionByTuple (pairs.map fun pair => (pair.1, change pair.2)) =
      (partitionByTuple pairs).map fun pair => (pair.1, change pair.2) := by
  induction pairs using partitionByTuple.induct with
  | case1 => simp [partitionByTuple]
  | case2 tuple item pairs ih =>
    have halike : alike tuple (pairs.map fun pair => (pair.1, change pair.2)) =
        (alike tuple pairs).map fun pair => (pair.1, change pair.2) := List.filter_map
    have hothers : others tuple (pairs.map fun pair => (pair.1, change pair.2)) =
        (others tuple pairs).map fun pair => (pair.1, change pair.2) := List.filter_map
    rw [List.map_cons, partitionByTuple, partitionByTuple, List.map_cons, List.map_append, ← ih,
      halike, hothers, List.map_map, List.map_map]
    rfl

theorem partitionByTuple_perm (pairs : List (List Value × α)) :
    ((partitionByTuple pairs).map Prod.snd).Perm (pairs.map Prod.snd) := by
  induction pairs using partitionByTuple.induct with
  | case1 => simp [partitionByTuple]
  | case2 tuple item pairs ih =>
    rw [partitionByTuple, List.map_cons, List.map_cons, List.map_append, List.map_map]
    refine List.Perm.cons item ?_
    have hsplit := (List.filter_append_perm (fun pair : List Value × α =>
      Value.sameItems tuple pair.1) pairs).map Prod.snd
    rw [List.map_append] at hsplit
    exact (ih.append_left _).trans hsplit

/-- The tuple that an item is written with equals its own. -/
theorem sameItems_of_mem_partitionByTuple (own : α → List Value) {pairs : List (List Value × α)}
    (hown : ∀ pair ∈ pairs, own pair.2 = pair.1) :
    ∀ pair ∈ partitionByTuple pairs, Value.sameItems pair.1 (own pair.2) = true := by
  induction pairs using partitionByTuple.induct with
  | case1 => simp [partitionByTuple]
  | case2 tuple item pairs ih =>
    intro pair hpair
    rw [partitionByTuple] at hpair
    obtain rfl | hpair := List.mem_cons.mp hpair
    · rw [hown (tuple, item) List.mem_cons_self]
      exact Value.sameItems_refl tuple
    obtain hgroup | hrest := List.mem_append.mp hpair
    · obtain ⟨other, hother, rfl⟩ := List.mem_map.mp hgroup
      obtain ⟨hmem, hsame⟩ := List.mem_filter.mp hother
      rw [hown other (List.mem_cons_of_mem _ hmem)]
      exact hsame
    · refine ih (fun other hother => ?_) pair hrest
      exact hown other (List.mem_cons_of_mem _ (List.mem_filter.mp hother).1)

/-! ## Groups -/

/-- Grouping looks at tuples only. -/
theorem groupByTuple_map (change : α → β) (pairs : List (List Value × α)) :
    groupByTuple (pairs.map fun pair => (pair.1, change pair.2)) =
      (groupByTuple pairs).map fun group => (group.1, group.2.map change) := by
  induction pairs using partitionByTuple.induct with
  | case1 => rfl
  | case2 tuple item pairs ih =>
    have halike : alike tuple (pairs.map fun pair => (pair.1, change pair.2)) =
        (alike tuple pairs).map fun pair => (pair.1, change pair.2) := List.filter_map
    have hothers : others tuple (pairs.map fun pair => (pair.1, change pair.2)) =
        (others tuple pairs).map fun pair => (pair.1, change pair.2) := List.filter_map
    rw [List.map_cons, groupByTuple_cons, groupByTuple_cons, List.map_cons, ← ih, halike, hothers,
      List.map_cons, List.map_map, List.map_map]
    rfl

theorem groupByTuple_perm (pairs : List (List Value × α)) :
    ((groupByTuple pairs).flatMap Prod.snd).Perm (pairs.map Prod.snd) := by
  have hsnd : (partitionByTuple pairs).map Prod.snd = (groupByTuple pairs).flatMap Prod.snd := by
    rw [← flatMap_groupByTuple, List.map_flatMap]
    simp only [List.map_map, Function.comp_def, List.map_id']
  exact hsnd ▸ partitionByTuple_perm pairs

/-- An item of a group has a tuple that equals that of the group. -/
theorem exists_of_mem_groupByTuple {pairs : List (List Value × α)} {group : List Value × List α}
    (hgroup : group ∈ groupByTuple pairs) {item : α} (hitem : item ∈ group.2) :
    ∃ tuple, (tuple, item) ∈ pairs ∧ Value.sameItems group.1 tuple = true := by
  rw [groupByTuple_eq] at hgroup
  obtain ⟨tuple, -, rfl⟩ := List.mem_map.mp hgroup
  obtain ⟨pair, hpair, rfl⟩ := List.mem_map.mp hitem
  obtain ⟨hmem, hsame⟩ := List.mem_filter.mp hpair
  exact ⟨pair.1, hmem, hsame⟩

end Logbook
