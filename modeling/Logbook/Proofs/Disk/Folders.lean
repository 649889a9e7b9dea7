import Mathlib.Data.List.TakeWhile
import Logbook.Proofs.Disk.Files

/-!
# Making folders

The folders of a path are made from the first one that is missing.  Nothing that is there
gets lost, and making the folders once more changes nothing.
-/

namespace Logbook

namespace Disk

open Entry Outcome

variable {top : Entry} {disk : Disk} {path : Path}

/-- Steps end with a last name and blanks behind it, if they are not all blank. -/
theorem cases_of_steps (steps : List String) :
    steps.reverse.dropWhile (fun step => step == "") = [] ∨
    ∃ before name, steps.reverse.dropWhile (fun step => step == "") = name :: before ∧ name ≠ "" ∧
      ∃ count, steps = before.reverse ++ ([name] ++ List.replicate count "") := by
  cases hdrop : steps.reverse.dropWhile fun step => step == "" with
  | nil => exact .inl rfl
  | cons name before =>
    have hname : ¬ (name == "") = true := by
      have hhead := List.head?_dropWhile_not (fun step => step == "") steps.reverse
      rw [hdrop] at hhead
      simpa using hhead
    obtain ⟨count, hblank⟩ : ∃ count,
        steps.reverse.takeWhile (fun step => step == "") = List.replicate count "" :=
      ⟨_, List.eq_replicate_iff.mpr
        ⟨rfl, fun step hstep => by simpa using List.mem_takeWhile_imp hstep⟩⟩
    refine .inr ⟨before, name, rfl, by simpa using hname, count, ?_⟩
    have hsteps :=
      List.takeWhile_append_dropWhile (p := fun step => step == "") (l := steps.reverse)
    rw [hdrop, hblank] at hsteps
    have hreverse := congrArg List.reverse hsteps
    rw [List.reverse_reverse, List.reverse_append, List.reverse_replicate, List.reverse_cons,
      List.append_assoc] at hreverse
    exact hreverse.symm

/-- A folder that is made is new, and the steps lead to it then. -/
theorem makeFolder_spec {made : Entry} {steps : List String} (h : makeFolder top steps = .ok made) :
    top.Grows made ∧ ∃ place, follow made [] steps = .ok place ∧
      made.outlineAt? place = some .folder := by
  unfold makeFolder at h
  obtain hnone | ⟨before, name, hname, hne, count, hsteps⟩ := cases_of_steps steps
  · rw [hnone] at h
    cases h
  · rw [hname] at h
    obtain ⟨place, hplace, hrest⟩ := bind_eq_ok.mp h
    split at hrest
    · cases hrest
    · cases hrest
    · next entries hat =>
      have hfolder := outlineAt?_eq_folder_iff.mpr ⟨entries, hat⟩
      split_ifs at hrest with htaken hlength
      simp only [Bool.or_eq_true, beq_iff_eq, not_or, Option.isSome_iff_ne_none, ne_eq,
        not_not] at htaken
      obtain ⟨⟨hdot, hdots⟩, hnew⟩ := htaken
      have hbefore : top.outlineAt? (place ++ [name]) = none := by
        rw [outlineAt?_append hat, hnew]
        rfl
      cases hrest
      have hgrows := grows_put_folder hfolder hbefore
      have hmade : (top.put (folder []) (place ++ [name])).outlineAt? (place ++ [name]) =
          some .folder := by
        rw [outlineAt?_put hfolder (by simp [hbefore]) fun _ _ => rfl, if_pos rfl]
        rfl
      refine ⟨hgrows, place ++ [name], ?_, hmade⟩
      -- The steps before the name lead where they led, and the blanks behind it nowhere else.
      rw [hsteps, follow_append]
      refine ⟨place, follow_of_foldersStay hgrows.foldersStay hplace, ?_⟩
      rw [follow_append]
      refine ⟨place ++ [name], ?_, follow_blanks_of_folder hmade count⟩
      rw [follow_name ⟨hne, hdot, hdots⟩]
      exact ⟨hgrows place _ hfolder, Nat.not_lt.mp hlength, rfl⟩

/-- Where there is a folder, none can be made. -/
theorem makeFolder_of_folder {steps : List String} {place : Place}
    (hfollow : follow top [] steps = .ok place) (hfolder : top.outlineAt? place = some .folder) :
    makeFolder top steps = .error .taken := by
  unfold makeFolder
  obtain hnone | ⟨before, name, hname, hne, count, hsteps⟩ := cases_of_steps steps
  · rw [hnone]
  · rw [hname]
    rw [hsteps, follow_append] at hfollow
    obtain ⟨between, hbetween, hfollow⟩ := hfollow
    obtain ⟨last, hlast, hblanks⟩ := follow_append.mp hfollow
    obtain ⟨entries, hat⟩ := at?_folder_of_outlineAt? (follow_cons.mp hlast).1
    obtain rfl := follow_blanks hblanks
    dsimp only
    rw [hbetween, Outcome.ok_bind, hat]
    dsimp only
    rw [if_pos]
    -- A step that stays or goes up counts as taken, like a name that is there.
    by_cases hdots : name = "." ∨ name = ".."
    · rcases hdots with rfl | rfl <;> rfl
    · rw [not_or] at hdots
      obtain ⟨-, -, rfl⟩ := (follow_name ⟨hne, hdots⟩).mp hlast
      rw [outlineAt?_append hat] at hfolder
      obtain ⟨entry, hentry, -⟩ := Option.map_eq_some_iff.mp hfolder
      simp [hentry]

/-- Steps lead to a folder. -/
def IsFolderAt (top : Entry) (steps : List String) : Prop :=
  ∃ place, follow top [] steps = .ok place ∧ top.outlineAt? place = some .folder

/-- Whether there is a folder where steps lead. -/
def isThere (top : Entry) (steps : List String) : Bool :=
  match (follow top [] steps).toOption.bind top.at? with
  | some (.folder _) => true
  | _ => false

theorem isThere_iff {steps : List String} : isThere top steps = true ↔ IsFolderAt top steps := by
  unfold isThere IsFolderAt
  simp only [outlineAt?_eq_folder_iff]
  cases follow top [] steps with
  | error fault => simp [Except.toOption]
  | ok place =>
    simp only [Except.toOption, Option.bind_some, Except.ok.injEq, exists_eq_left']
    cases top.at? place with
    | none => simp
    | some entry => cases entry <;> simp

theorem makeFoldersAt_succ (fuel : Nat) (top : Entry) (steps : List String) :
    makeFoldersAt (fuel + 1) top steps =
      match makeFolder top steps with
      | .ok top => (.ok (), top)
      | .error .notFound =>
          match makeFoldersAt fuel top (settled (settled steps).dropLast) with
          | (.error fault, top) => (.error fault, top)
          | (.ok (), top) =>
              match makeFolder top steps with
              | .ok top => (.ok (), top)
              | .error fault => (if isThere top steps then .ok () else .error fault, top)
      | .error fault => (if isThere top steps then .ok () else .error fault, top) := rfl

/-- What cannot be made may be there already. -/
theorem isFolderAt_of_ok {fault : Fault} {steps : List String}
    (h : (if isThere top steps then .ok () else .error fault : Except Fault Unit) = .ok ()) :
    IsFolderAt top steps := by
  by_cases hthere : isThere top steps = true
  · exact isThere_iff.mp hthere
  · rw [if_neg hthere] at h
    cases h

/-- Making folders takes nothing away, and if it succeeds the steps lead to a folder. -/
theorem makeFoldersAt_spec (fuel : Nat) (top : Entry) (steps : List String) :
    top.Grows (makeFoldersAt fuel top steps).2 ∧
      ((makeFoldersAt fuel top steps).1 = .ok () →
        IsFolderAt (makeFoldersAt fuel top steps).2 steps) := by
  induction fuel generalizing steps with
  | zero => exact ⟨Grows.refl top, nofun⟩
  | succ fuel ih =>
    rw [makeFoldersAt_succ]
    split
    · next made hmade =>
      obtain ⟨hgrows, hfolder⟩ := makeFolder_spec hmade
      exact ⟨hgrows, fun _ => hfolder⟩
    · have hparent := (ih (settled (settled steps).dropLast)).1
      split
      · next heq =>
        rw [heq] at hparent
        exact ⟨hparent, nofun⟩
      · next heq =>
        rw [heq] at hparent
        split
        · next made hmade =>
          obtain ⟨hgrows, hfolder⟩ := makeFolder_spec hmade
          exact ⟨hparent.trans hgrows, fun _ => hfolder⟩
        · exact ⟨hparent, isFolderAt_of_ok⟩
    · exact ⟨Grows.refl top, isFolderAt_of_ok⟩

theorem makeFoldersAt_of_folder (fuel : Nat) {steps : List String} (h : IsFolderAt top steps) :
    makeFoldersAt (fuel + 1) top steps = (.ok (), top) := by
  obtain ⟨place, hfollow, hfolder⟩ := h
  rw [makeFoldersAt_succ, makeFolder_of_folder hfollow hfolder]
  dsimp only
  rw [if_pos (isThere_iff.mpr ⟨place, hfollow, hfolder⟩)]

/-- The path leads to a folder, so there is nothing to make. -/
def IsMade (disk : Disk) (path : Path) : Prop :=
  ∀ other : Disk, other.home = disk.home → FoldersStay disk.top other.top →
    other.makeFolders path = (.ok (), other)

/-- Making the folders of a path takes nothing away, and if it succeeds they are made. -/
theorem makeFolders_spec {made : Disk} {outcome : Except Fault Unit}
    (h : disk.makeFolders path = (outcome, made)) :
    made.home = disk.home ∧ disk.top.Grows made.top ∧
      (outcome = .ok () → made.top.outlineAt? [] = some .folder ∧ made.IsMade path) := by
  unfold makeFolders stepsFromHome? at h
  split at h
  · cases h
    exact ⟨rfl, Grows.refl _, nofun⟩
  · next hnull =>
    split at h
    · next steps hsteps =>
      obtain ⟨hgrows, hfolder⟩ := makeFoldersAt_spec (steps.length + 1) disk.top steps
      cases h
      refine ⟨rfl, hgrows, fun hok => ?_⟩
      obtain ⟨place, hplace, houtline⟩ := hfolder hok
      refine ⟨outlineAt?_top houtline, fun other hhome hstay => ?_⟩
      have hagain : IsFolderAt other.top steps :=
        ⟨place, follow_of_foldersStay hstay hplace, hstay place houtline⟩
      unfold makeFolders stepsFromHome?
      rw [hhome, if_neg hnull, hsteps]
      dsimp only
      rw [makeFoldersAt_of_folder _ hagain]
      show ((.ok (), ⟨disk.home, other.top⟩) : Except Fault Unit × Disk) = _
      rw [← hhome]
    · cases h
      exact ⟨rfl, Grows.refl _, nofun⟩

end Disk

end Logbook
