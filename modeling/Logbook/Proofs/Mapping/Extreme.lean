import Logbook.Mapping.Summary
import Logbook.Proofs.Value.Double

/-!
# Which run ends lowest or highest

The run that ends lowest is looked for among those that end in a number, and the first is taken of
several that end alike.  Numbers are compared as doubles, so what is selected is the first best of
the ends in the order in which integers are converted first.  It is the first best in the exact
order of values, too, unless some run ends in a better number that is the same double
(`Summary.minLast_maxLast_spec`).  Only an integer that is rounded can be in the way, so there is
none below 2 ^ 53 (`Summary.Selects.not_overlooks_of_small`).

## Strategy

The candidates that the loop has seen split at the one that it keeps: that is better than all
before it, and none behind it is better.  A further candidate keeps this
(`Summary.FirstBest.pick`), because what is better than the first best is better than all that
have been seen.  The rows of the candidates ascend, so the first best candidate is the first row
that ends in the best number.
-/

namespace Logbook

namespace Summary

/-! ## The candidates -/

/-- The values in which the runs of a column end, one for each row. -/
def ends (arguments : List Value) : List Value := (column arguments).map lastOf

/-- A candidate is the number in which its row ends. -/
structure Candidate.EndsIn (candidate : Candidate) (ends : List Value) : Prop where
  row : ends[candidate.row]? = some candidate.value
  number : candidate.value.toBinary64? = some candidate.number
  notNaN : candidate.number.isNaN = false

variable {arguments cells ends : List Value} {candidate other : Candidate} {better : Ordering}

theorem Candidate.EndsIn.isNumber (h : candidate.EndsIn ends) : candidate.value.isNumber = true :=
  Value.isNumber_iff.mpr ⟨candidate.number, h.number, h.notNaN⟩

/-- The candidate that a cell gives, if it ends in a number. -/
def candidate? (cell : Value × Nat) : Option Candidate :=
  (lastOf cell.1).toBinary64?.bind fun number =>
    if number.isNaN then none else some ⟨cell.2, lastOf cell.1, number⟩

theorem candidates_eq (cells : List Value) :
    candidates cells = cells.zipIdx.filterMap candidate? := rfl

theorem candidate?_eq_some {cell : Value × Nat} : candidate? cell = some candidate ↔
    cell.2 = candidate.row ∧ lastOf cell.1 = candidate.value ∧
      candidate.value.toBinary64? = some candidate.number ∧ candidate.number.isNaN = false := by
  rw [candidate?, Option.bind_eq_some_iff]
  constructor
  · rintro ⟨number, hnumber, hsome⟩
    split at hsome
    · cases hsome
    next hnan =>
      cases hsome
      exact ⟨rfl, rfl, hnumber, by simpa using hnan⟩
  · rintro ⟨hrow, hvalue, hnumber, hnan⟩
    refine ⟨candidate.number, hvalue ▸ hnumber, ?_⟩
    simp [hrow, hvalue, hnan]

/-- The candidates are the rows that end in a number. -/
theorem mem_candidates : candidate ∈ candidates cells ↔ candidate.EndsIn (cells.map lastOf) := by
  rw [candidates_eq, List.mem_filterMap]
  constructor
  · rintro ⟨cell, hmem, hcandidate⟩
    obtain ⟨hrow, hvalue, hnumber, hnan⟩ := candidate?_eq_some.mp hcandidate
    have hcell : cells[candidate.row]? = some cell.1 :=
      hrow ▸ List.mem_zipIdx_iff_getElem?.mp hmem
    exact ⟨by simp [hcell, hvalue], hnumber, hnan⟩
  · rintro ⟨hrow, hnumber, hnan⟩
    rw [List.getElem?_map, Option.map_eq_some_iff] at hrow
    obtain ⟨cell, hcell, hvalue⟩ := hrow
    exact ⟨(cell, candidate.row), List.mem_zipIdx_iff_getElem?.mpr hcell,
      candidate?_eq_some.mpr ⟨rfl, hvalue, hnumber, hnan⟩⟩

theorem pairwise_candidates (cells : List Value) :
    (candidates cells).Pairwise fun left right => left.row < right.row := by
  have hrows : cells.zipIdx.Pairwise fun left right => left.2 < right.2 := by
    rw [← List.pairwise_map, List.zipIdx_map_snd]
    exact List.pairwise_lt_range'
  refine hrows.filterMap _ fun leftCell rightCell hlt left hleft right hright => ?_
  rw [← (candidate?_eq_some.mp hleft).1, ← (candidate?_eq_some.mp hright).1]
  exact hlt

/-- Candidates are compared by the doubles that their values are converted to. -/
theorem compare?_eq (hcandidate : candidate.EndsIn ends) (hother : other.EndsIn ends) :
    candidate.number.compare? other.number = some (candidate.value.doubleOrder other.value) := by
  rw [Value.doubleOrder, Value.asDouble_eq hcandidate.number, Value.asDouble_eq hother.number,
    Value.order, Value.order_of_isNaN_eq_false hcandidate.notNaN hother.notNaN]
  simp [Binary64.compare?, hcandidate.notNaN, hother.notNaN]

/-! ## The first best of the candidates -/

/-- The first best of several candidates: better than all before it, and none behind it is
better. -/
inductive FirstBest (better : Ordering) : List Candidate → Option Candidate → Prop
  | empty : FirstBest better [] none
  | split {before after : List Candidate} {chosen : Candidate}
      (hbefore : ∀ other ∈ before, chosen.value.doubleOrder other.value = better)
      (hafter : ∀ other ∈ after, other.value.doubleOrder chosen.value ≠ better) :
      FirstBest better (before ++ chosen :: after) (some chosen)

/-- No candidate is better than the first best. -/
theorem doubleOrder_ne_of_split {before after : List Candidate} {chosen : Candidate}
    (hbetter : better = .lt ∨ better = .gt)
    (hbefore : ∀ other ∈ before, chosen.value.doubleOrder other.value = better)
    (hafter : ∀ other ∈ after, other.value.doubleOrder chosen.value ≠ better) :
    ∀ other ∈ before ++ chosen :: after, other.value.doubleOrder chosen.value ≠ better := by
  intro other hother
  rcases List.mem_append.mp hother with hmem | hmem
  · exact (Value.doubleOrder_ne hbetter (hbefore other hmem)).1
  rcases List.mem_cons.mp hmem with rfl | hmem
  · exact Value.doubleOrder_self hbetter other.value
  · exact hafter other hmem

/-- A further candidate replaces the first best if it is better than that. -/
theorem FirstBest.pick {seen : List Candidate} {best : Option Candidate} {next : Candidate}
    (hbetter : better = .lt ∨ better = .gt) (hseen : ∀ other ∈ seen, other.EndsIn ends)
    (hnext : next.EndsIn ends) (h : FirstBest better seen best) :
    FirstBest better (seen ++ [next]) (pick better best next) := by
  cases h with
  | empty => exact @FirstBest.split better [] [] next nofun nofun
  | @split before after chosen hbefore hafter =>
    have hchosen : chosen.EndsIn ends := hseen chosen (by simp)
    rw [Summary.pick, compare?_eq hnext hchosen]
    by_cases hreplaces : next.value.doubleOrder chosen.value = better
    -- None that has been seen is better than the one chosen, so the next is better than all.
    · have hall : ∀ other ∈ before ++ chosen :: after,
          next.value.doubleOrder other.value = better := by
        intro other hother
        exact Value.doubleOrder_of_ne hbetter hnext.isNumber hchosen.isNumber
          (hseen other hother).isNumber hreplaces
          (doubleOrder_ne_of_split hbetter hbefore hafter other hother)
      simpa [hreplaces] using @FirstBest.split better _ [] next hall nofun
    · have hlast : ∀ other ∈ after ++ [next], other.value.doubleOrder chosen.value ≠ better := by
        intro other hother
        rcases List.mem_append.mp hother with hmem | hmem
        · exact hafter other hmem
        · rw [List.mem_singleton.mp hmem]
          exact hreplaces
      simpa [hreplaces] using FirstBest.split hbefore hlast

theorem firstBest_foldl {rest seen : List Candidate} {best : Option Candidate}
    (hbetter : better = .lt ∨ better = .gt) (hall : ∀ other ∈ seen ++ rest, other.EndsIn ends)
    (h : FirstBest better seen best) :
    FirstBest better (seen ++ rest) (rest.foldl (pick better) best) := by
  induction rest generalizing seen best with
  | nil => simpa using h
  | cons next rest ih =>
    have hseen : ∀ other ∈ seen, other.EndsIn ends := fun other hother =>
      hall other (List.mem_append_left _ hother)
    rw [List.append_cons] at hall ⊢
    exact ih hall (h.pick hbetter hseen (hall next (by simp)))

/-- The loop finds the first best candidate. -/
theorem firstBest_best? (hbetter : better = .lt ∨ better = .gt) (cells : List Value) :
    FirstBest better (candidates cells) (best? better (candidates cells)) := by
  have hall : ∀ other ∈ [] ++ candidates cells, other.EndsIn (cells.map lastOf) :=
    fun _ hother => mem_candidates.mp hother
  exact firstBest_foldl hbetter hall .empty

/-! ## What is selected -/

/-- A result is the first best of the ends that are numbers, and its row, or null twice if there
is none. -/
inductive Selects (order : Value → Value → Ordering) (better : Ordering) (ends : List Value) :
    List Value → Prop
  | number {value : Value} {row : Nat} (hrow : ends[row]? = some value)
      (hnumber : value.isNumber = true)
      (hbest : ∀ other ∈ ends, other.isNumber = true → order other value ≠ better)
      (hfirst : ∀ earlier < row, ∀ other, ends[earlier]? = some other → order other value ≠ .eq) :
      Selects order better ends [value, .int (Int64.ofNat row)]
  | none (hnone : ∀ other ∈ ends, other.isNumber = false) : Selects order better ends [.null, .null]

/-- A number among the ends is better than the one selected, but both are one double. -/
inductive Overlooks (better : Ordering) (ends : List Value) : List Value → Prop
  | double {value row other : Value} (hmem : other ∈ ends) (hother : other.isNumber = true)
      (hnumber : value.isNumber = true) (hbetter : other.order value = better)
      (hdouble : other.doubleOrder value = .eq) : Overlooks better ends [value, row]

variable {result : List Value}

theorem exists_endsIn {row : Nat} {value : Value} (hrow : ends[row]? = some value)
    (hnumber : value.isNumber = true) :
    ∃ candidate : Candidate, candidate.EndsIn ends ∧ candidate.row = row ∧
      candidate.value = value := by
  obtain ⟨number, hdouble, hnan⟩ := Value.isNumber_iff.mp hnumber
  exact ⟨⟨row, value, number⟩, ⟨hrow, hdouble, hnan⟩, rfl, rfl⟩

theorem Selects.best {order : Value → Value → Ordering} {value row : Value}
    (h : Selects order better ends [value, row]) (hnumber : value.isNumber = true) :
    ∀ other ∈ ends, other.isNumber = true → order other value ≠ better := by
  generalize hresult : [value, row] = result at h
  cases h with
  | number hrow _ hbest _ =>
    cases hresult
    exact hbest
  | none _ =>
    cases hresult
    cases hnumber

/-- The first best candidate is the first best end. -/
theorem FirstBest.selects {chosen : Candidate} (hbetter : better = .lt ∨ better = .gt)
    (h : FirstBest better (candidates cells) (some chosen)) :
    Selects Value.doubleOrder better (cells.map lastOf)
      [chosen.value, .int (Int64.ofNat chosen.row)] := by
  generalize hcandidates : candidates cells = all at h
  cases h with
  | @split before after chosen hbefore hafter =>
    have hchosen : chosen.EndsIn (cells.map lastOf) :=
      mem_candidates.mp (hcandidates ▸ by simp)
    refine .number hchosen.row hchosen.isNumber ?_ ?_
    · intro other hmem hnumber
      obtain ⟨row, hrow⟩ := List.mem_iff_getElem?.mp hmem
      obtain ⟨candidate, hends, -, rfl⟩ := exists_endsIn hrow hnumber
      have hcandidate : candidate ∈ before ++ chosen :: after :=
        hcandidates ▸ mem_candidates.mpr hends
      exact doubleOrder_ne_of_split hbetter hbefore hafter candidate hcandidate
    · intro earlier hearlier other hrow heq
      obtain ⟨candidate, hends, rfl, rfl⟩ :=
        exists_endsIn hrow (Value.isNumber_of_doubleOrder_eq hchosen.isNumber heq)
      have hcandidate : candidate ∈ before ++ chosen :: after :=
        hcandidates ▸ mem_candidates.mpr hends
      -- Rows ascend, so an earlier row stands before the one chosen, which is better than it.
      have hrows := List.pairwise_append.mp (hcandidates ▸ pairwise_candidates cells)
      have hbehind := List.pairwise_cons.mp hrows.2.1
      rcases List.mem_append.mp hcandidate with hmem | hmem
      · exact (Value.doubleOrder_ne hbetter (hbefore candidate hmem)).2 heq
      rcases List.mem_cons.mp hmem with rfl | hmem
      · exact lt_irrefl _ hearlier
      · exact lt_asymm hearlier (hbehind.1 candidate hmem)

/-- Without a candidate, no end is a number. -/
theorem FirstBest.selects_none (order : Value → Value → Ordering)
    (h : FirstBest better (candidates cells) none) :
    Selects order better (cells.map lastOf) [.null, .null] := by
  generalize hcandidates : candidates cells = all at h
  cases h with
  | empty =>
    refine .none fun other hmem => Bool.eq_false_iff.mpr fun hnumber => ?_
    obtain ⟨row, hrow⟩ := List.mem_iff_getElem?.mp hmem
    obtain ⟨candidate, hends, -, -⟩ := exists_endsIn hrow hnumber
    have hcandidate := hcandidates ▸ mem_candidates.mpr hends
    cases hcandidate

/-- The best end as a double is the best end unless a better one is overlooked. -/
theorem Selects.order_iff (hbetter : better = .lt ∨ better = .gt)
    (h : Selects Value.doubleOrder better ends result) :
    Selects Value.order better ends result ↔ ¬ Overlooks better ends result := by
  constructor
  · rintro hselects ⟨hmem, hother, hnumber, horder, -⟩
    exact hselects.best hnumber _ hmem hother horder
  · intro hoverlooks
    cases h with
    | number hrow hnumber hbest hfirst =>
      refine .number hrow hnumber ?_ ?_
      · intro other hmem hother horder
        rcases Value.doubleOrder_of_order hbetter hother hnumber horder with hdouble | hdouble
        · exact hbest other hmem hother hdouble
        · exact hoverlooks (.double hmem hother hnumber horder hdouble)
      · intro earlier hlt other hrow horder
        have hother : other.isNumber = true := Value.isNumber_of_order_eq hnumber horder
        exact hfirst earlier hlt other hrow (Value.doubleOrder_of_order_eq hother hnumber horder)
    | none hnone => exact .none hnone

/-- Among integers that are not rounded, no better end is overlooked. -/
theorem Selects.not_overlooks_of_small (hbetter : better = .lt ∨ better = .gt)
    (hsmall : ∀ integer, .int integer ∈ ends → integer.toInt.natAbs < Binary64.mantissaBound)
    (h : Selects Value.doubleOrder better ends result) : ¬ Overlooks better ends result := by
  rintro ⟨hmem, hother, hnumber, horder, hdouble⟩
  cases h with
  | number hrow _ _ _ =>
    have hvalue := List.mem_of_getElem? hrow
    rw [Value.doubleOrder_eq hother hnumber,
      Value.position_asDouble_of_small fun integer hinteger => hsmall integer (hinteger ▸ hmem),
      Value.position_asDouble_of_small fun integer hinteger => hsmall integer (hinteger ▸ hvalue),
      ← Value.order_eq_comparePositions hother hnumber, horder] at hdouble
    rcases hbetter with rfl | rfl <;> cases hdouble
  | none _ => cases hnumber

/-- A result is the first best end as a double, and the first best end exactly if no better one
is overlooked. -/
structure ChosenAsDouble (better : Ordering) (ends result : List Value) : Prop where
  asDouble : Selects Value.doubleOrder better ends result
  exact : Selects Value.order better ends result ↔ ¬ Overlooks better ends result

theorem exists_chosenAsDouble (name key : String) (hbetter : better = .lt ∨ better = .gt)
    (arguments : List Value) : ∃ result, (extreme name better key).call arguments = .ok result ∧
      ChosenAsDouble better (Summary.ends arguments) result := by
  suffices hselects : ∃ result, (extreme name better key).call arguments = .ok result ∧
      Selects Value.doubleOrder better (Summary.ends arguments) result by
    obtain ⟨result, hcall, hresult⟩ := hselects
    exact ⟨result, hcall, hresult, hresult.order_iff hbetter⟩
  have hbest := firstBest_best? hbetter (column arguments)
  dsimp only [extreme]
  cases hchosen : best? better (candidates (column arguments)) with
  | some chosen => exact ⟨_, rfl, (hchosen ▸ hbest).selects hbetter⟩
  | none => exact ⟨_, rfl, (hchosen ▸ hbest).selects_none _⟩

/-- The run that ends lowest and the run that ends highest are the first that do as doubles, and
the first that do exactly unless a better number is the same double. -/
theorem minLast_maxLast_spec (key : String) (arguments : List Value) :
    (∃ lowest, (minLast key).call arguments = .ok lowest ∧
      ChosenAsDouble .lt (Summary.ends arguments) lowest) ∧
    ∃ highest, (maxLast key).call arguments = .ok highest ∧
      ChosenAsDouble .gt (Summary.ends arguments) highest :=
  ⟨exists_chosenAsDouble "min_last" key (.inl rfl) arguments,
    exists_chosenAsDouble "max_last" key (.inr rfl) arguments⟩

/-- If one run ends in 2 ^ 53 + 1 and the next in 2 ^ 53, the first is selected as the lowest. -/
theorem not_forall_selects_order :
    ¬ ∀ (key : String) (arguments : List Value),
      (∃ lowest, (minLast key).call arguments = .ok lowest ∧
        Selects Value.order .lt (Summary.ends arguments) lowest) ∧
      ∃ highest, (maxLast key).call arguments = .ok highest ∧
        Selects Value.order .gt (Summary.ends arguments) highest := by
  intro hall
  let arguments : List Value := [.list [.int 9007199254740993, .int 9007199254740992]]
  have hdouble : (Binary64.ofInt 9007199254740992).compare? (Binary64.ofInt 9007199254740993) =
      some .eq := by
    decide +kernel
  have hcall : (minLast "loss").call arguments = .ok [.int 9007199254740993, .int 0] := by
    simp [arguments, minLast, extreme, column, Value.toItems?, candidates, lastOf,
      Value.toBinary64?, Binary64.isNaN_ofInt, best?, pick, hdouble]
  obtain ⟨⟨lowest, hlowest, hselects⟩, -⟩ := hall "loss" arguments
  cases hcall.symm.trans hlowest
  have hmem : .int 9007199254740992 ∈ Summary.ends arguments := .tail _ (.head _)
  exact hselects.best rfl _ hmem rfl (by decide)

end Summary

end Logbook
