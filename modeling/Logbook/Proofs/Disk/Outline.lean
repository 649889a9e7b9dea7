import Mathlib.Tactic.Common
import Logbook.Disk

/-!
# Places on a disk

What writing, removing and making folders does to a disk, place by place.

## Strategy

A change below a folder changes the folder, so entries themselves are not kept.  What is kept
is their outline: that there is a folder, or which contents a file has.  Following a path needs
no more than the outlines on the way, hence every path that leads somewhere still leads to the
same place as long as folders stay folders.
-/

namespace Logbook

/-- What an entry is, apart from the entries of a folder. -/
inductive Outline where
  | file (contents : Contents)
  | folder

namespace Entry

def outline : Entry → Outline
  | file contents => .file contents
  | folder _ => .folder

/-- What is at a place, apart from the entries of a folder. -/
def outlineAt? (top : Entry) (place : Place) : Option Outline := (top.at? place).map outline

/-! ## Entries by name -/

theorem named?_cons (name : String) (first : String × Entry) (entries : List (String × Entry)) :
    named? name (first :: entries) =
      if first.1 = name then some first.2 else named? name entries := by
  unfold named?
  by_cases hname : first.1 = name
  · simp [hname]
  · simp [hname]

theorem named?_withNamed (name other : String) (entry : Entry) (entries : List (String × Entry)) :
    named? other (withNamed name entry entries) =
      if other = name then some entry else named? other entries := by
  induction entries with
  | nil =>
    rw [withNamed, named?_cons]
    by_cases hother : other = name
    · simp [hother]
    · simp [hother, Ne.symm hother]
  | cons first entries ih =>
    rw [withNamed]
    by_cases hfirst : first.1 = name
    · rw [if_pos (by simpa using hfirst), named?_cons, named?_cons]
      by_cases hother : other = name
      · simp [hother]
      · simp [hother, Ne.symm hother, hfirst]
    · rw [if_neg (by simpa using hfirst), named?_cons, named?_cons, ih]
      by_cases hother : other = name
      · subst hother
        simp [hfirst]
      · simp [hother]

theorem named?_filter (name other : String) (entries : List (String × Entry)) :
    named? other (entries.filter fun entry => entry.1 != name) =
      if other = name then none else named? other entries := by
  induction entries with
  | nil => simp [named?]
  | cons first entries ih =>
    by_cases hfirst : first.1 = name
    · rw [List.filter_cons_of_neg (by simpa using hfirst), ih, named?_cons]
      by_cases hother : other = name
      · simp [hother]
      · simp [hother, hfirst, Ne.symm hother]
    · rw [List.filter_cons_of_pos (by simpa using hfirst), named?_cons, named?_cons, ih]
      by_cases hother : other = name
      · subst hother
        simp [hfirst]
      · simp [hother]

/-! ## Outlines -/

theorem outlineAt?_nil (top : Entry) : top.outlineAt? [] = some top.outline := by
  rw [outlineAt?, at?]
  rfl

theorem outlineAt?_folder (entries : List (String × Entry)) (name : String) (place : Place) :
    (folder entries).outlineAt? (name :: place) =
      (named? name entries).bind fun entry => entry.outlineAt? place := by
  show Option.map outline ((named? name entries).bind _) = _
  cases named? name entries <;> rfl

theorem at?_folder_of_outlineAt? {top : Entry} {place : Place}
    (h : top.outlineAt? place = some .folder) :
    ∃ entries, top.at? place = some (.folder entries) := by
  obtain ⟨entry, hentry, houtline⟩ := Option.map_eq_some_iff.mp h
  cases entry with
  | file contents => cases houtline
  | folder entries => exact ⟨entries, hentry⟩

/-- Whatever lies anywhere lies in folders. -/
theorem outlineAt?_of_append {top : Entry} (place : Place) {below : Place} (hne : below ≠ [])
    (h : top.outlineAt? (place ++ below) ≠ none) : top.outlineAt? place = some .folder := by
  induction place generalizing top with
  | nil =>
    cases top with
    | folder entries => exact outlineAt?_nil _
    | file contents =>
      cases below with
      | nil => exact absurd rfl hne
      | cons name below => exact absurd rfl h
  | cons name place ih =>
    cases top with
    | file contents => exact absurd rfl h
    | folder entries =>
      rw [List.cons_append, outlineAt?_folder] at h
      rw [outlineAt?_folder]
      cases hnamed : named? name entries with
      | none => simp [hnamed] at h
      | some entry =>
        rw [hnamed] at h
        exact ih h

theorem outlineAt?_dropLast {top : Entry} {place : Place}
    (h : top.outlineAt? place = some .folder) : top.outlineAt? place.dropLast = some .folder := by
  rcases place.eq_nil_or_concat with rfl | ⟨before, last, rfl⟩
  · exact h
  · rw [List.concat_eq_append] at h ⊢
    rw [List.dropLast_concat]
    refine outlineAt?_of_append before (List.cons_ne_nil last []) ?_
    rw [h]
    nofun

/-- One name in a folder gets another entry, or none, with nothing below it.  If there was no
folder at the name before, nothing else changes. -/
theorem outlineAt?_of_named? {entries others : List (String × Entry)} {name : String}
    (next : Option Entry)
    (hnamed : ∀ first, named? first others = if first = name then next else named? first entries)
    (hbefore : (folder entries).outlineAt? [name] ≠ some .folder)
    (hnext : ∀ entry ∈ next, ∀ step place, entry.outlineAt? (step :: place) = none)
    (other : Place) :
    (folder others).outlineAt? other =
      if other = [name] then next.map outline else (folder entries).outlineAt? other := by
  cases other with
  | nil => simp [outlineAt?_nil, outline]
  | cons first other =>
    rw [outlineAt?_folder, hnamed]
    by_cases hfirst : first = name
    · subst hfirst
      rw [if_pos rfl]
      cases other with
      | nil =>
        rw [if_pos rfl]
        cases next <;> rfl
      | cons second other =>
        -- Below the name there was nothing, since it had no folder.
        have hnone : (folder entries).outlineAt? (first :: second :: other) = none := by
          by_contra hbelow
          exact hbefore (outlineAt?_of_append [first] (List.cons_ne_nil second other) hbelow)
        rw [if_neg (by simp), hnone]
        cases next with
        | none => rfl
        | some entry => exact hnext entry rfl second other
    · rw [if_neg hfirst, if_neg (by simp [hfirst]), outlineAt?_folder]

/-- One place in an entry changes, so the same place changes in the folder of the entry. -/
theorem outlineAt?_withNamed {entries : List (String × Entry)} {step : String}
    {inner changed : Entry} {place : Place} {next : Option Outline}
    (hnamed : named? step entries = some inner)
    (hchanged : ∀ other,
      changed.outlineAt? other = if other = place then next else inner.outlineAt? other)
    (other : Place) :
    (folder (withNamed step changed entries)).outlineAt? other =
      if other = step :: place then next else (folder entries).outlineAt? other := by
  cases other with
  | nil => simp [outlineAt?_nil, outline]
  | cons first other =>
    rw [outlineAt?_folder, outlineAt?_folder, named?_withNamed]
    by_cases hfirst : first = step
    · subst hfirst
      rw [if_pos rfl, Option.bind_some, hchanged, hnamed]
      simp
    · rw [if_neg hfirst, if_neg (by simp [hfirst])]

variable {top : Entry} {place : Place} {name : String}

/-- What is put into a folder is there, and what lies elsewhere stays, as long as no folder is
replaced. -/
theorem outlineAt?_put {entry : Entry} (hfolder : top.outlineAt? place = some .folder)
    (hbefore : top.outlineAt? (place ++ [name]) ≠ some .folder)
    (hentry : ∀ step place, entry.outlineAt? (step :: place) = none) (other : Place) :
    (top.put entry (place ++ [name])).outlineAt? other =
      if other = place ++ [name] then some entry.outline else top.outlineAt? other := by
  induction place generalizing top other with
  | nil =>
    obtain ⟨entries, htop⟩ := at?_folder_of_outlineAt? hfolder
    cases htop
    rw [List.nil_append, put]
    refine outlineAt?_of_named? (some entry) (fun first => ?_) hbefore ?_ other
    · rw [put, named?_withNamed]
    · rintro _ ⟨⟩
      exact hentry
  | cons step place ih =>
    cases top with
    | file contents => cases hfolder
    | folder entries =>
      rw [outlineAt?_folder] at hfolder
      rw [List.cons_append, outlineAt?_folder] at hbefore
      obtain ⟨inner, hnamed, hfolder⟩ := Option.bind_eq_some_iff.mp hfolder
      rw [hnamed] at hbefore
      rw [List.cons_append, put, hnamed]
      exact outlineAt?_withNamed hnamed (ih hfolder hbefore) other

/-- What is erased from a folder is gone, and what lies elsewhere stays, as long as no folder is
erased. -/
theorem outlineAt?_erase (hfolder : top.outlineAt? place = some .folder)
    (hbefore : top.outlineAt? (place ++ [name]) ≠ some .folder) (other : Place) :
    (top.erase (place ++ [name])).outlineAt? other =
      if other = place ++ [name] then none else top.outlineAt? other := by
  induction place generalizing top other with
  | nil =>
    obtain ⟨entries, htop⟩ := at?_folder_of_outlineAt? hfolder
    cases htop
    rw [List.nil_append, erase, List.isEmpty_nil, if_pos rfl]
    refine outlineAt?_of_named? none (fun first => named?_filter name first entries)
      hbefore ?_ other
    simp
  | cons step place ih =>
    cases top with
    | file contents => cases hfolder
    | folder entries =>
      rw [outlineAt?_folder] at hfolder
      rw [List.cons_append, outlineAt?_folder] at hbefore
      obtain ⟨inner, hnamed, hfolder⟩ := Option.bind_eq_some_iff.mp hfolder
      rw [hnamed] at hbefore
      rw [List.cons_append, erase, if_neg (by simp), hnamed]
      exact outlineAt?_withNamed hnamed (ih hfolder hbefore) other

/-- Where there is a folder, the top is one. -/
theorem outlineAt?_top (h : top.outlineAt? place = some .folder) :
    top.outlineAt? [] = some .folder := by
  cases place with
  | nil => exact h
  | cons step place =>
    refine outlineAt?_of_append [] (List.cons_ne_nil step place) ?_
    rw [List.nil_append, h]
    nofun

theorem outlineAt?_eq_folder_iff :
    top.outlineAt? place = some .folder ↔ ∃ entries, top.at? place = some (.folder entries) := by
  refine ⟨at?_folder_of_outlineAt?, ?_⟩
  rintro ⟨entries, hentries⟩
  rw [outlineAt?, hentries]
  rfl

theorem outlineAt?_eq_file_iff {contents : Contents} :
    top.outlineAt? place = some (.file contents) ↔ top.at? place = some (.file contents) := by
  constructor
  · intro h
    obtain ⟨entry, hentry, houtline⟩ := Option.map_eq_some_iff.mp h
    cases entry with
    | file others => cases houtline; exact hentry
    | folder entries => cases houtline
  · intro h
    rw [outlineAt?, h]
    rfl

theorem outlineAt?_append {entries : List (String × Entry)}
    (h : top.at? place = some (.folder entries)) (name : String) :
    top.outlineAt? (place ++ [name]) = (named? name entries).map outline := by
  induction place generalizing top with
  | nil =>
    cases h
    rw [List.nil_append, outlineAt?_folder]
    cases named? name entries with
    | none => rfl
    | some entry => exact outlineAt?_nil entry
  | cons step place ih =>
    cases top with
    | file contents => cases h
    | folder others =>
      obtain ⟨inner, hinner, hat⟩ := Option.bind_eq_some_iff.mp h
      rw [List.cons_append, outlineAt?_folder, hinner]
      exact ih hat

/-- Every folder of one entry is a folder of another, too. -/
def FoldersStay (top other : Entry) : Prop :=
  ∀ place, top.outlineAt? place = some .folder → other.outlineAt? place = some .folder

theorem FoldersStay.trans {first second third : Entry} (h : first.FoldersStay second)
    (hmore : second.FoldersStay third) : first.FoldersStay third :=
  fun place hplace => hmore place (h place hplace)

theorem foldersStay_put {entry : Entry} (hfolder : top.outlineAt? place = some .folder)
    (hbefore : top.outlineAt? (place ++ [name]) ≠ some .folder)
    (hentry : ∀ step place, entry.outlineAt? (step :: place) = none) :
    FoldersStay top (top.put entry (place ++ [name])) := by
  intro other hother
  rw [outlineAt?_put hfolder hbefore hentry, if_neg ?_]
  · exact hother
  · rintro rfl
    exact hbefore hother

theorem foldersStay_erase (hfolder : top.outlineAt? place = some .folder)
    (hbefore : top.outlineAt? (place ++ [name]) ≠ some .folder) :
    FoldersStay top (top.erase (place ++ [name])) := by
  intro other hother
  rw [outlineAt?_erase hfolder hbefore, if_neg ?_]
  · exact hother
  · rintro rfl
    exact hbefore hother

/-- Whatever is in one entry is in another, too. -/
def Grows (top made : Entry) : Prop :=
  ∀ place outline, top.outlineAt? place = some outline → made.outlineAt? place = some outline

theorem Grows.refl (top : Entry) : top.Grows top := fun _ _ h => h

theorem Grows.trans {first second third : Entry} (h : first.Grows second)
    (hmore : second.Grows third) : first.Grows third :=
  fun place outline hplace => hmore place outline (h place outline hplace)

theorem Grows.foldersStay {made : Entry} (h : top.Grows made) : FoldersStay top made :=
  fun place hplace => h place .folder hplace

theorem grows_put_folder (hfolder : top.outlineAt? place = some .folder)
    (hbefore : top.outlineAt? (place ++ [name]) = none) :
    top.Grows (top.put (folder []) (place ++ [name])) := by
  intro other outline hother
  rw [outlineAt?_put hfolder (by simp [hbefore]) fun _ _ => rfl, if_neg ?_]
  · exact hother
  · rintro rfl
    rw [hbefore] at hother
    cases hother

end Entry

end Logbook
