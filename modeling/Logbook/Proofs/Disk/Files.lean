import Logbook.Proofs.Disk.Outline
import Logbook.Proofs.Outcome
import Logbook.Proofs.Path

/-!
# Files at paths

Where a path leads, and what writing or removing a file there does to the disk.  Most paths
are used with a last name below some folder (`Disk.LeadsTo`).
-/

namespace Logbook

/-! ## Following paths -/

namespace Disk

open Entry Outcome

variable {top : Entry}

/-- Each step but those that stay goes up or down from a folder. -/
theorem follow_cons {here place : Place} {step : String} {steps : List String} :
    follow top here (step :: steps) = .ok place ↔
      top.outlineAt? here = some .folder ∧
        if step = "" ∨ step = "." then follow top here steps = .ok place
        else if step = ".." then here ≠ [] ∧ follow top here.dropLast steps = .ok place
        else step.utf8ByteSize ≤ maxNameLength ∧ follow top (here ++ [step]) steps = .ok place := by
  rw [follow, outlineAt?_eq_folder_iff]
  cases hat : top.at? here with
  | none => simp
  | some entry =>
    cases entry with
    | file contents => simp
    | folder entries =>
      by_cases hstay : step = "" ∨ step = "."
      · simp [hstay]
      · by_cases hparent : step = ".."
        · cases here <;> simp [hparent]
        · by_cases hlength : maxNameLength < step.utf8ByteSize
          · have hlong : ¬ step.utf8ByteSize ≤ maxNameLength := by omega
            simp [hstay, hparent, hlength, hlong]
          · simp [hstay, hparent, hlength, Nat.not_lt.mp hlength]

theorem follow_of_foldersStay {other : Entry} (h : FoldersStay top other) {here place : Place}
    {steps : List String} (hfollow : follow top here steps = .ok place) :
    follow other here steps = .ok place := by
  induction steps generalizing here with
  | nil => exact hfollow
  | cons step steps ih =>
    rw [follow_cons] at hfollow ⊢
    refine ⟨h here hfollow.1, ?_⟩
    have hnext := hfollow.2
    split_ifs at hnext ⊢
    · exact ih hnext
    · exact ⟨hnext.1, ih hnext.2⟩
    · exact ⟨hnext.1, ih hnext.2⟩

theorem follow_append {here place : Place} {steps more : List String} :
    follow top here (steps ++ more) = .ok place ↔
      ∃ between, follow top here steps = .ok between ∧ follow top between more = .ok place := by
  induction steps generalizing here with
  | nil => simp [follow]
  | cons step steps ih =>
    rw [List.cons_append, follow_cons]
    simp only [follow_cons, ih]
    split_ifs <;> grind

/-- A name that is a step down. -/
def IsName (name : String) : Prop := name ≠ "" ∧ name ≠ "." ∧ name ≠ ".."

theorem follow_name {here place : Place} {name : String} (hname : IsName name) :
    follow top here [name] = .ok place ↔
      top.outlineAt? here = some .folder ∧ name.utf8ByteSize ≤ maxNameLength ∧
        place = here ++ [name] := by
  obtain ⟨hempty, hdot, hdots⟩ := hname
  rw [follow_cons, if_neg (by simp [hempty, hdot]), if_neg hdots, follow, Except.ok.injEq]
  tauto

theorem follow_blanks {here place : Place} {count : Nat}
    (h : follow top here (List.replicate count "") = .ok place) : place = here := by
  induction count with
  | zero =>
    cases h
    rfl
  | succ count ih =>
    rw [List.replicate_succ, follow_cons, if_pos (Or.inl rfl)] at h
    exact ih h.2

theorem follow_blanks_of_folder {here : Place} (h : top.outlineAt? here = some .folder)
    (count : Nat) : follow top here (List.replicate count "") = .ok here := by
  induction count with
  | zero => rfl
  | succ count ih =>
    rw [List.replicate_succ, follow_cons, if_pos (Or.inl rfl)]
    exact ⟨h, ih⟩

/-- What a path leads to, apart from the top, lies in a folder. -/
theorem parent_of_follow {here place : Place} {steps : List String}
    (hhere : here ≠ [] → top.outlineAt? here.dropLast = some .folder)
    (h : follow top here steps = .ok place) (hplace : place ≠ []) :
    top.outlineAt? place.dropLast = some .folder := by
  induction steps generalizing here with
  | nil =>
    cases h
    exact hhere hplace
  | cons step steps ih =>
    obtain ⟨hfolder, hnext⟩ := follow_cons.mp h
    split_ifs at hnext
    · exact ih hhere hnext
    · exact ih (fun _ => outlineAt?_dropLast (outlineAt?_dropLast hfolder)) hnext.2
    · refine ih (fun _ => ?_) hnext.2
      rw [List.dropLast_concat]
      exact hfolder

/-! ## Files -/

variable {disk written : Disk} {path : Path}

/-- The steps along a path that leads somewhere. -/
theorem locate_eq_ok {place : Place} :
    disk.locate path = .ok place ↔ path.text.toList.contains '\x00' = false ∧
      ∃ steps, disk.stepsFromHome? path = some steps ∧ follow disk.top [] steps = .ok place := by
  unfold locate
  cases path.text.toList.contains '\x00' with
  | true => simp
  | false => cases disk.stepsFromHome? path <;> simp

theorem locate_of_foldersStay {other : Disk} (hhome : other.home = disk.home)
    (h : FoldersStay disk.top other.top) {place : Place} (hlocate : disk.locate path = .ok place) :
    other.locate path = .ok place := by
  obtain ⟨hnull, steps, hsteps, hfollow⟩ := locate_eq_ok.mp hlocate
  refine locate_eq_ok.mpr ⟨hnull, steps, ?_, follow_of_foldersStay h hfollow⟩
  rwa [stepsFromHome?, hhome]

theorem entry_eq_ok {entry : Entry} :
    disk.entry path = .ok entry ↔
      ∃ place, disk.locate path = .ok place ∧ disk.top.at? place = some entry := by
  unfold Disk.entry
  rw [bind_eq_ok]
  refine exists_congr fun place => and_congr_right fun _ => ?_
  cases disk.top.at? place <;> simp

theorem readText_eq_ok {text : String} :
    disk.readText path = .ok text ↔
      ∃ place, disk.locate path = .ok place ∧
        disk.top.outlineAt? place = some (.file (.text text)) := by
  simp only [outlineAt?_eq_file_iff, ← entry_eq_ok]
  unfold readText Disk.read
  simp only [bind_eq_ok]
  constructor
  · rintro ⟨contents, ⟨entry, hentry, hcontents⟩, htext⟩
    cases entry with
    | folder entries => cases hcontents
    | file contents =>
      cases hcontents
      cases contents with
      | binary bytes => cases htext
      | text words =>
        cases htext
        exact hentry
  · intro hentry
    exact ⟨_, ⟨_, hentry, rfl⟩, rfl⟩

theorem exists?_of_readText {text : String} (h : disk.readText path = .ok text) :
    disk.exists? path = true := by
  obtain ⟨place, hlocate, houtline⟩ := readText_eq_ok.mp h
  rw [exists?, entry_eq_ok.mpr ⟨place, hlocate, outlineAt?_eq_file_iff.mp houtline⟩]
  rfl

theorem isFile_of_readText {text : String} (h : disk.readText path = .ok text) :
    disk.isFile path = true := by
  obtain ⟨place, hlocate, houtline⟩ := readText_eq_ok.mp h
  rw [isFile, entry_eq_ok.mpr ⟨place, hlocate, outlineAt?_eq_file_iff.mp houtline⟩]

theorem canonical?_of_folder {place : Place} (hlocate : disk.locate path = .ok place)
    (hfolder : disk.top.outlineAt? place = some .folder) :
    disk.canonical? path = some (place.foldl Path.join disk.home) := by
  obtain ⟨entries, hat⟩ := at?_folder_of_outlineAt? hfolder
  rw [canonical?, hlocate]
  dsimp only
  rw [hat, Option.isSome_some, if_pos rfl]

/-- A folder that stays has one canonical path. -/
theorem canonical?_of_foldersStay {other : Disk} (hfolder : disk.isFolder path = true)
    (hhome : other.home = disk.home) (h : FoldersStay disk.top other.top) :
    other.canonical? path = disk.canonical? path := by
  obtain ⟨place, hlocate, houtline⟩ : ∃ place, disk.locate path = .ok place ∧
      disk.top.outlineAt? place = some .folder := by
    unfold isFolder at hfolder
    split at hfolder
    · next entries hentry =>
      obtain ⟨place, hlocate, hat⟩ := entry_eq_ok.mp hentry
      exact ⟨place, hlocate, outlineAt?_eq_folder_iff.mpr ⟨entries, hat⟩⟩
    · cases hfolder
  rw [canonical?_of_folder hlocate houtline,
    canonical?_of_folder (locate_of_foldersStay hhome h hlocate) (h place houtline), hhome]

/-- A path leads to a name in a folder. -/
structure LeadsTo (disk : Disk) (path : Path) (folder : Place) (name : String) : Prop where
  locate : disk.locate path = .ok (folder ++ [name])
  folder : disk.top.outlineAt? folder = some .folder

theorem LeadsTo.of_foldersStay {other : Disk} {place : Place} {name : String}
    (h : disk.LeadsTo path place name) (hhome : other.home = disk.home)
    (hstay : FoldersStay disk.top other.top) : other.LeadsTo path place name where
  locate := locate_of_foldersStay hhome hstay h.locate
  folder := hstay place h.folder

theorem eq_append_of_go {home pieces steps : List String}
    (h : stepsFromHome?.go home pieces = some steps) : pieces = home ++ steps := by
  induction home generalizing pieces with
  | nil =>
    rw [stepsFromHome?.go] at h
    exact Option.some.inj h
  | cons name home ih =>
    cases pieces with
    | nil => cases h
    | cons piece pieces =>
      rw [stepsFromHome?.go] at h
      split at h
      · next hname =>
        rw [List.cons_append, ih h, eq_of_beq hname]
      · cases h

/-- A path that ends with a name leads to that name in a folder, if it does not lead to a
folder. -/
theorem leadsTo_of_endsWith {place : Place} {name : String} (hpath : path.EndsWith name)
    (hname : IsName name) (htop : disk.top.outlineAt? [] = some .folder)
    (hlocate : disk.locate path = .ok place) (hplace : disk.top.outlineAt? place ≠ some .folder) :
    ∃ folder, place = folder ++ [name] ∧ disk.LeadsTo path folder name := by
  obtain ⟨-, steps, hhome, hfollow⟩ := locate_eq_ok.mp hlocate
  have hpieces := eq_append_of_go hhome
  -- Without any steps the path leads to the top, which is a folder.
  rcases steps.eq_nil_or_concat with rfl | ⟨before, last, rfl⟩
  · cases hfollow
    exact absurd htop hplace
  · have hlast : last = name := by
      rw [Path.EndsWith, hpieces, List.concat_eq_append, ← List.append_assoc] at hpath
      simpa using hpath
    subst hlast
    rw [List.concat_eq_append, follow_append] at hfollow
    obtain ⟨folder, -, hfollow⟩ := hfollow
    obtain ⟨hfolder, -, rfl⟩ := (follow_name hname).mp hfollow
    exact ⟨folder, rfl, hlocate, hfolder⟩

theorem exists_locate_of_write {contents : Contents} (h : disk.write path contents = .ok written) :
    ∃ place, disk.locate path = .ok place := by
  obtain ⟨place, hlocate, -⟩ := bind_eq_ok.mp h
  exact ⟨place, hlocate⟩

theorem write_eq_ok {contents : Contents} {place : Place} (hlocate : disk.locate path = .ok place) :
    disk.write path contents = .ok written ↔
      disk.top.outlineAt? place ≠ some .folder ∧
        written = { disk with top := disk.top.put (.file contents) place } := by
  unfold write
  rw [hlocate, Outcome.ok_bind, Ne, outlineAt?_eq_folder_iff]
  cases disk.top.at? place with
  | none => simp [eq_comm]
  | some entry => cases entry <;> simp [eq_comm]

/-- A file that is written is there, and everything else stays. -/
theorem write_spec {place : Place} {name : String} (hleads : disk.LeadsTo path place name)
    {contents : Contents} (h : disk.write path contents = .ok written) :
    written.home = disk.home ∧ FoldersStay disk.top written.top ∧
      ∀ other, written.top.outlineAt? other =
        if other = place ++ [name] then some (.file contents) else disk.top.outlineAt? other := by
  obtain ⟨hbefore, rfl⟩ := (write_eq_ok hleads.locate).mp h
  exact ⟨rfl, foldersStay_put hleads.folder hbefore fun _ _ => rfl,
    outlineAt?_put hleads.folder hbefore fun _ _ => rfl⟩

/-- What is written to a file is read from it. -/
theorem readText_of_write {text : String} (h : disk.write path (.text text) = .ok written) :
    written.readText path = .ok text := by
  obtain ⟨place, hlocate⟩ := exists_locate_of_write h
  obtain ⟨hnull, steps, hsteps, hfollow⟩ := locate_eq_ok.mp hlocate
  rcases place.eq_nil_or_concat with rfl | ⟨folder, name, rfl⟩
  · -- The top is a file, so no step leads on from it.
    obtain ⟨htop, rfl⟩ := (write_eq_ok hlocate).mp h
    cases steps with
    | cons step steps => exact absurd (follow_cons.mp hfollow).1 htop
    | nil => exact readText_eq_ok.mpr ⟨[], locate_eq_ok.mpr ⟨hnull, [], hsteps, rfl⟩, rfl⟩
  · rw [List.concat_eq_append] at hlocate hfollow
    have hparent := parent_of_follow (by simp) hfollow (by simp)
    rw [List.dropLast_concat] at hparent
    have hleads : disk.LeadsTo path folder name := ⟨hlocate, hparent⟩
    obtain ⟨hhome, hstay, houtline⟩ := write_spec hleads h
    exact readText_eq_ok.mpr ⟨_, (hleads.of_foldersStay hhome hstay).locate,
      (houtline _).trans (if_pos rfl)⟩

/-- Removing a file from a folder leaves everything else. -/
theorem remove_spec {place : Place} {name : String} (hleads : disk.LeadsTo path place name)
    {contents : Contents} (hfile : disk.top.outlineAt? (place ++ [name]) = some (.file contents)) :
    ∃ removed, disk.remove path = .ok removed ∧ removed.home = disk.home ∧
      FoldersStay disk.top removed.top ∧
      ∀ other, removed.top.outlineAt? other =
        if other = place ++ [name] then none else disk.top.outlineAt? other := by
  have hbefore : disk.top.outlineAt? (place ++ [name]) ≠ some .folder := by
    rw [hfile]
    nofun
  refine ⟨{ disk with top := disk.top.erase (place ++ [name]) }, ?_, rfl,
    foldersStay_erase hleads.folder hbefore, outlineAt?_erase hleads.folder hbefore⟩
  rw [outlineAt?_eq_file_iff] at hfile
  have hplace : (place ++ [name]).isEmpty = false := by simp
  unfold remove
  rw [hleads.locate, Outcome.ok_bind, hplace, hfile]
  rfl

/-! ## Names below a folder -/

theorem list_eq_ok {entries : List (String × Entry)} :
    disk.list path = .ok entries ↔
      ∃ place, disk.locate path = .ok place ∧ disk.top.at? place = some (.folder entries) := by
  rw [← entry_eq_ok, Disk.list, bind_eq_ok]
  constructor
  · rintro ⟨entry, hentry, hfolder⟩
    cases entry with
    | file contents => cases hfolder
    | folder others =>
      cases hfolder
      exact hentry
  · intro hentry
    exact ⟨_, hentry, rfl⟩

/-- A path of names below a folder is followed from the folder. -/
theorem follow_of_locate_foldl {parts : List String} (hparts : ∀ part ∈ parts, Path.IsPiece part)
    (hne : parts ≠ []) {place below : Place} (hlocate : disk.locate path = .ok place)
    (hbelow : disk.locate (parts.foldl Path.join path) = .ok below) :
    follow disk.top place parts = .ok below := by
  obtain ⟨-, steps, hsteps, hfollow⟩ := locate_eq_ok.mp hlocate
  obtain ⟨-, more, hmore, hfollowMore⟩ := locate_eq_ok.mp hbelow
  have hpieces := eq_append_of_go hsteps
  have hall := eq_append_of_go hmore
  obtain ⟨front, hfront, hjoined⟩ := Path.exists_pieces_foldl_join hparts hne path
  rw [hjoined] at hall
  rcases hfront with hempty | hsame
  · -- The path ends with a slash, which makes a last step that stays.
    rw [hempty] at hpieces
    rcases steps.eq_nil_or_concat with rfl | ⟨before, last, rfl⟩
    · rw [List.append_nil] at hpieces
      rw [← hpieces, List.append_assoc] at hall
      obtain ⟨part, others, rfl⟩ := List.exists_cons_of_ne_nil hne
      have hfirst := (List.cons.inj (List.append_cancel_left hall)).1
      exact absurd hfirst (hparts part List.mem_cons_self).1
    · rw [List.concat_eq_append, ← List.append_assoc] at hpieces
      obtain ⟨hstart, hlast⟩ := List.append_inj' hpieces rfl
      obtain rfl : last = "" := (List.cons.inj hlast).1.symm
      rw [hstart, List.append_assoc] at hall
      obtain rfl : before ++ parts = more := List.append_cancel_left hall
      rw [List.concat_eq_append, follow_append] at hfollow
      obtain ⟨between, hbetween, hstay⟩ := hfollow
      obtain rfl : place = between := follow_blanks (List.replicate_one ▸ hstay)
      obtain ⟨other, hother, hparts⟩ := follow_append.mp hfollowMore
      obtain rfl : place = other := Except.ok.inj (hbetween.symm.trans hother)
      exact hparts
  · rw [hsame] at hpieces
    rw [hpieces, List.append_assoc] at hall
    obtain rfl : steps ++ parts = more := List.append_cancel_left hall
    obtain ⟨other, hother, hparts⟩ := follow_append.mp hfollowMore
    obtain rfl : place = other := Except.ok.inj (hfollow.symm.trans hother)
    exact hparts

/-- A name through which a path below a folder goes on is that of a folder in it. -/
theorem exists_folder_of_locate {name next : String} {rest : List String}
    (hparts : ∀ part ∈ name :: next :: rest, Path.IsPiece part) (hname : IsName name)
    {entries : List (String × Entry)} (hlist : disk.list path = .ok entries) {below : Place}
    (hbelow : disk.locate ((name :: next :: rest).foldl Path.join path) = .ok below) :
    ∃ files, (name, Entry.folder files) ∈ entries := by
  obtain ⟨place, hlocate, hat⟩ := list_eq_ok.mp hlist
  have hfollow := follow_of_locate_foldl hparts (List.cons_ne_nil _ _) hlocate hbelow
  obtain ⟨hempty, hdot, hdots⟩ := hname
  rw [follow_cons, if_neg (by simp [hempty, hdot]), if_neg hdots, follow_cons] at hfollow
  have hfolder := hfollow.2.2.1
  rw [outlineAt?_append hat] at hfolder
  obtain ⟨entry, hentry, houtline⟩ := Option.map_eq_some_iff.mp hfolder
  obtain ⟨found, hfound, rfl⟩ := Option.map_eq_some_iff.mp hentry
  have hfoundName : found.1 = name := by simpa using List.find?_some hfound
  have hmem := List.mem_of_find?_eq_some hfound
  rcases found with ⟨other, contents | files⟩
  · cases houtline
  · exact ⟨files, hfoundName ▸ hmem⟩

end Disk

end Logbook
