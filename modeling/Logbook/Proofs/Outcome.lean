/-!
# Computations that can fail

How a computation that succeeds is taken apart into its steps.
-/

namespace Logbook

namespace Outcome

variable {ε α β : Type}

@[simp] theorem ok_bind (value : α) (next : α → Except ε β) :
    ((.ok value : Except ε α) >>= next) = next value := rfl

theorem bind_eq_ok {first : Except ε α} {next : α → Except ε β} {result : β} :
    (first >>= next) = .ok result ↔ ∃ value, first = .ok value ∧ next value = .ok result := by
  cases first with
  | error error =>
    constructor
    · intro hnext
      cases hnext
    · rintro ⟨_, heq, -⟩
      cases heq
  | ok value =>
    constructor
    · intro hnext
      exact ⟨value, rfl, hnext⟩
    · rintro ⟨_, heq, hnext⟩
      cases heq
      exact hnext

theorem eq_ok_of_toOption {outcome : Except ε α} {value : α} (h : outcome.toOption = some value) :
    outcome = .ok value := by
  cases outcome with
  | error error => cases h
  | ok other =>
    cases h
    rfl

/-- To see something of a result there has to be one. -/
theorem exists_eq_ok_of_seen {σ : Type} {run : Except ε α × σ} {see : α → β} {seen : β}
    (h : (run.1.map see).toOption = some seen) :
    ∃ value after, run = (.ok value, after) ∧ see value = seen := by
  obtain ⟨outcome, after⟩ := run
  cases outcome with
  | error error => cases h
  | ok value => exact ⟨value, after, rfl, Option.some.inj h⟩

/-- What a list of computations gives, each of them gave. -/
theorem exists_of_mem_mapM {compute : α → Except ε β} {items : List α} {results : List β}
    (hrun : items.mapM compute = .ok results) {result : β} (hresult : result ∈ results) :
    ∃ item ∈ items, compute item = .ok result := by
  induction items generalizing results with
  | nil =>
    cases hrun
    cases hresult
  | cons item items ih =>
    rw [List.mapM_cons] at hrun
    obtain ⟨first, hfirst, hrest⟩ := bind_eq_ok.mp hrun
    obtain ⟨rest, hmore, hpure⟩ := bind_eq_ok.mp hrest
    cases hpure
    rcases List.mem_cons.mp hresult with rfl | hmem
    · exact ⟨item, List.mem_cons_self, hfirst⟩
    · obtain ⟨other, hother, hgiven⟩ := ih hmore hmem
      exact ⟨other, List.mem_cons_of_mem _ hother, hgiven⟩

theorem exists_mem_of_mapM {compute : α → Except ε β} {items : List α} {results : List β}
    (hrun : items.mapM compute = .ok results) {item : α} (hitem : item ∈ items) :
    ∃ result ∈ results, compute item = .ok result := by
  induction items generalizing results with
  | nil => cases hitem
  | cons first items ih =>
    rw [List.mapM_cons] at hrun
    obtain ⟨result, hfirst, hrest⟩ := bind_eq_ok.mp hrun
    obtain ⟨rest, hmore, hpure⟩ := bind_eq_ok.mp hrest
    cases hpure
    rcases List.mem_cons.mp hitem with rfl | hmem
    · exact ⟨result, List.mem_cons_self, hfirst⟩
    · obtain ⟨other, hother, hgiven⟩ := ih hmore hmem
      exact ⟨other, List.mem_cons_of_mem _ hother, hgiven⟩

/-- A list of computations fails as one of them does. -/
theorem exists_error_of_mapM {compute : α → Except ε β} {items : List α} {error : ε}
    (hrun : items.mapM compute = .error error) : ∃ item ∈ items, compute item = .error error := by
  induction items with
  | nil => cases hrun
  | cons item items ih =>
    rw [List.mapM_cons] at hrun
    cases hitem : compute item with
    | error other =>
      rw [hitem] at hrun
      cases hrun
      exact ⟨item, List.mem_cons_self, hitem⟩
    | ok result =>
      cases hitems : items.mapM compute with
      | ok results =>
        rw [hitem, hitems] at hrun
        cases hrun
      | error other =>
        rw [hitem, hitems] at hrun
        cases hrun
        obtain ⟨found, hfound, hfault⟩ := ih hitems
        exact ⟨found, List.mem_cons_of_mem _ hfound, hfault⟩

theorem exists_of_mem_mapM? {compute : α → Option β} {items : List α} {results : List β}
    (hrun : items.mapM compute = some results) {result : β} (hresult : result ∈ results) :
    ∃ item ∈ items, compute item = some result := by
  induction items generalizing results with
  | nil =>
    cases hrun
    cases hresult
  | cons item items ih =>
    rw [List.mapM_cons] at hrun
    obtain ⟨first, hfirst, hrest⟩ := Option.bind_eq_some_iff.mp hrun
    obtain ⟨rest, hmore, hpure⟩ := Option.bind_eq_some_iff.mp hrest
    cases hpure
    rcases List.mem_cons.mp hresult with rfl | hmem
    · exact ⟨item, List.mem_cons_self, hfirst⟩
    · obtain ⟨other, hother, hgiven⟩ := ih hmore hmem
      exact ⟨other, List.mem_cons_of_mem _ hother, hgiven⟩

end Outcome

end Logbook
