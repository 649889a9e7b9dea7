import Logbook.Shelf

/-!
# Reading as a function of disk and shelf

A `Reading` hides the shelf that it changes.  Here it is applied: what a step gives is
handed to the next together with the shelf, and a failure ends the computation with the
shelf as it is.  Two ways to reason about readings follow from that:

* `bind_eq_ok` takes a successful computation apart into its steps;
* `Answers` says that a reading gives one outcome on every shelf of an invariant and
  keeps the invariant.  It goes through sequences and lists (`answers_bind`,
  `answers_mapM`), so a reading is compared with the same computation without a shelf.
-/

namespace Logbook

namespace Reading

variable {α β : Type}

/-! ## Applying readings -/

@[simp] theorem pure_apply (value : α) (disk : Disk) (shelf : Shelf) :
    (pure value : Reading α) disk shelf = (.ok value, shelf) := rfl

theorem bind_apply (first : Reading α) (next : α → Reading β) (disk : Disk) (shelf : Shelf) :
    (first >>= next) disk shelf =
      match first disk shelf with
      | (.ok value, shelf) => next value disk shelf
      | (.error error, shelf) => (.error error, shelf) := by
  have hcont : (first >>= next) disk shelf = match first disk shelf with
      | (outcome, shelf) => ExceptT.bindCont (fun value => next value disk) outcome shelf := rfl
  rw [hcont]
  rcases first disk shelf with ⟨_ | _, _⟩ <;> rfl

/-- A sequence succeeds when its first step does and the next one does on what that gave. -/
theorem bind_eq_ok {first : Reading α} {next : α → Reading β} {disk : Disk} {shelf after : Shelf}
    {result : β} :
    (first >>= next) disk shelf = (.ok result, after) ↔
      ∃ value between, first disk shelf = (.ok value, between) ∧
        next value disk between = (.ok result, after) := by
  rw [bind_apply]
  rcases first disk shelf with ⟨error | value, between⟩
  · constructor
    · intro hnext
      cases hnext
    · rintro ⟨_, _, heq, -⟩
      cases heq
  · constructor
    · intro hnext
      exact ⟨value, between, rfl, hnext⟩
    · rintro ⟨_, _, heq, hnext⟩
      cases heq
      exact hnext

theorem bind_of_ok {first : Reading α} {next : α → Reading β} {disk : Disk}
    {shelf between : Shelf} {value : α} (hfirst : first disk shelf = (.ok value, between)) :
    (first >>= next) disk shelf = next value disk between := by
  rw [bind_apply, hfirst]

/-- What is made of a result does not change the shelf. -/
theorem shelf_bind_pure (reading : Reading α) (f : α → β) (disk : Disk) (shelf : Shelf) :
    ((reading >>= fun value => pure (f value) : Reading β) disk shelf).2 =
      (reading disk shelf).2 := by
  rw [bind_apply]
  rcases reading disk shelf with ⟨_ | _, _⟩ <;> rfl

theorem exists_of_isOk {reading : Reading α} {disk : Disk} {now : Shelf}
    (h : (reading disk now).1.isOk = true) :
    ∃ value after, reading disk now = (.ok value, after) := by
  rcases hrun : reading disk now with ⟨error | value, after⟩
  · rw [hrun] at h
    cases h
  · exact ⟨value, after, rfl⟩

/-- What a list of readings gives, each of them gave at some time. -/
theorem exists_of_mem_mapM {reading : α → Reading β} {items : List α} {results : List β}
    {disk : Disk} {shelf after : Shelf}
    (hrun : items.mapM reading disk shelf = (.ok results, after)) {result : β}
    (hresult : result ∈ results) :
    ∃ item ∈ items, ∃ before next, reading item disk before = (.ok result, next) := by
  induction items generalizing results shelf with
  | nil =>
    cases hrun
    cases hresult
  | cons item items ih =>
    rw [List.mapM_cons] at hrun
    obtain ⟨first, between, hfirst, hrest⟩ := bind_eq_ok.mp hrun
    obtain ⟨rest, last, hlast, hpure⟩ := bind_eq_ok.mp hrest
    cases hpure
    obtain rfl | hmem := List.mem_cons.mp hresult
    · exact ⟨item, List.mem_cons_self, shelf, between, hfirst⟩
    · obtain ⟨other, hother, hgiven⟩ := ih hlast hmem
      exact ⟨other, List.mem_cons_of_mem _ hother, hgiven⟩

theorem length_of_mapM {reading : α → Reading β} {items : List α} {results : List β}
    {disk : Disk} {shelf after : Shelf}
    (hrun : items.mapM reading disk shelf = (.ok results, after)) :
    results.length = items.length := by
  induction items generalizing results shelf with
  | nil =>
    cases hrun
    rfl
  | cons item items ih =>
    rw [List.mapM_cons] at hrun
    obtain ⟨first, between, -, hrest⟩ := bind_eq_ok.mp hrun
    obtain ⟨rest, last, hlast, hpure⟩ := bind_eq_ok.mp hrest
    cases hpure
    rw [List.length_cons, List.length_cons, ih hlast]

/-! ## Readings with one answer -/

/-- On every shelf of an invariant the reading has the given outcome, and it keeps the
invariant. -/
def Answers (disk : Disk) (invariant : Shelf → Prop) (reading : Reading α)
    (outcome : Except Error α) : Prop :=
  ∀ shelf, invariant shelf → (reading disk shelf).1 = outcome ∧ invariant (reading disk shelf).2

variable {disk : Disk} {invariant : Shelf → Prop}

theorem answers_pure (value : α) : Answers disk invariant (pure value) (.ok value) :=
  fun _ hshelf => ⟨rfl, hshelf⟩

theorem answers_bind {first : Reading α} {next : α → Reading β} {outcome : Except Error α}
    {result : α → Except Error β} (hfirst : Answers disk invariant first outcome)
    (hnext : ∀ value, outcome = .ok value → Answers disk invariant (next value) (result value)) :
    Answers disk invariant (first >>= next) (outcome >>= result) := by
  intro shelf hshelf
  obtain ⟨hvalue, hbetween⟩ := hfirst shelf hshelf
  rw [bind_apply]
  cases hrun : first disk shelf with
  | mk given between =>
    simp only [hrun] at hvalue hbetween
    subst hvalue
    cases given with
    | error error => exact ⟨rfl, hbetween⟩
    | ok value => exact hnext value rfl between hbetween

theorem answers_mapM {reading : α → Reading β} {outcome : α → Except Error β} {items : List α}
    (h : ∀ item ∈ items, Answers disk invariant (reading item) (outcome item)) :
    Answers disk invariant (items.mapM reading) (items.mapM outcome) := by
  induction items with
  | nil => exact answers_pure []
  | cons item items ih =>
    rw [List.mapM_cons, List.mapM_cons]
    refine answers_bind (h item (by simp)) fun first _ => ?_
    refine answers_bind (ih fun other hother => h other (by simp [hother])) fun rest _ => ?_
    exact answers_pure (first :: rest)

/-- What is done after a reading and gives nothing does not change the answer. -/
theorem answers_followed {reading : Reading α} {last : Reading Unit} {outcome : Except Error α}
    (hreading : Answers disk invariant reading outcome)
    (hlast : Answers disk invariant last (.ok ())) :
    Answers disk invariant (do let result ← reading; last; return result) outcome := by
  rw [← bind_pure outcome]
  refine answers_bind hreading fun value _ => ?_
  exact answers_bind hlast fun _ _ => answers_pure value

/-- A change of the shelf that keeps the invariant answers with what it gives. -/
theorem answers_ofShelf {change : Shelf → α × Shelf} {value : α}
    (h : ∀ shelf, invariant shelf → (change shelf).1 = value ∧ invariant (change shelf).2) :
    Answers disk invariant (ofShelf change) (.ok value) := by
  intro shelf hshelf
  obtain ⟨hvalue, hafter⟩ := h shelf hshelf
  exact ⟨congrArg Except.ok hvalue, hafter⟩

end Reading

end Logbook
