import Logbook.Archive.Basic
import Logbook.Proofs.Disk.Folders

/-!
# The directory of a snapshot

Before an archive is opened, the directory of its snapshot is made where it is missing, and a
file is written there and removed.  A directory that has been prepared can be prepared again,
and no other file is touched.
-/

namespace Logbook

namespace Archive

open Entry Disk

variable {destination path : Path} {disk ready written : Disk}

/-- The directory is there, and the file to try it with can be written in it. -/
structure Ready (destination : Path) (disk : Disk) : Prop where
  made : disk.IsMade destination
  writable : ∃ folder, disk.LeadsTo (destination.join probe) folder probe ∧
    disk.top.outlineAt? (folder ++ [probe]) = none

theorem isName_probe : IsName probe := by
  unfold IsName
  decide

theorem endsWith_probe (destination : Path) : (destination.join probe).EndsWith probe :=
  Path.endsWith_join destination (by decide)

theorem append_name_inj {folder other : Place} {name last : String}
    (h : folder ++ [name] = other ++ [last]) : name = last := by
  simpa using (List.append_inj' h rfl).2

/-- A directory that could be prepared is ready, and files elsewhere are as they were. -/
theorem prepare_spec (h : prepare destination disk = (.ok (), ready)) :
    Ready destination ready ∧ ready.home = disk.home ∧ FoldersStay disk.top ready.top ∧
      disk.top.outlineAt? [] = some .folder ∧
      ∀ folder name contents, name ≠ probe →
        disk.top.outlineAt? (folder ++ [name]) = some (.file contents) →
        ready.top.outlineAt? (folder ++ [name]) = some (.file contents) := by
  unfold prepare at h
  rcases hmade : disk.makeFolders destination with ⟨outcome, made⟩
  obtain ⟨hhome, hgrows, hok⟩ := makeFolders_spec hmade
  rw [hmade] at h
  obtain error | ⟨⟩ := outcome
  · cases h
  · obtain ⟨htop, hismade⟩ := hok rfl
    cases hwrite : made.write (destination.join probe) (.text "") with
    | error fault => simp [hwrite] at h
    | ok written =>
      obtain ⟨place, hlocate⟩ := exists_locate_of_write hwrite
      have hplace := ((write_eq_ok hlocate).mp hwrite).1
      obtain ⟨folder, rfl, hleads⟩ :=
        leadsTo_of_endsWith (endsWith_probe destination) isName_probe htop hlocate hplace
      -- The file is written (`W`) and removed again (`R`), so nothing fails from here on.
      obtain ⟨hhomeW, hstayW, houtlineW⟩ := write_spec hleads hwrite
      have hleadsW := hleads.of_foldersStay hhomeW hstayW
      obtain ⟨removed, hremove, hhomeR, hstayR, houtlineR⟩ :=
        remove_spec hleadsW ((houtlineW _).trans (if_pos rfl))
      simp only [hwrite, hremove, Prod.mk.injEq, true_and] at h
      subst h
      have hstay := hstayW.trans hstayR
      refine ⟨⟨fun other hother hfolders => ?_, folder, ?_, ?_⟩, ?_, ?_, ?_, ?_⟩
      · exact hismade other (hother.trans (hhomeR.trans hhomeW)) (hstay.trans hfolders)
      · exact hleadsW.of_foldersStay hhomeR hstayR
      · rw [houtlineR, if_pos rfl]
      · exact hhomeR.trans (hhomeW.trans hhome)
      · exact hgrows.foldersStay.trans hstay
      · have hdisk := hgrows [] _ (outlineAt?_nil disk.top)
        rw [outlineAt?_nil, ← htop, hdisk]
      · intro other name contents hname hfile
        have hne : other ++ [name] ≠ folder ++ [probe] := fun heq => hname (append_name_inj heq)
        rw [houtlineR, if_neg hne, houtlineW, if_neg hne]
        exact hgrows _ _ hfile

/-- A directory that is ready can be prepared. -/
theorem prepare_of_ready (h : Ready destination disk) :
    ∃ ready, prepare destination disk = (.ok (), ready) := by
  obtain ⟨folder, hleads, hnone⟩ := h.writable
  have hwrite : disk.write (destination.join probe) (.text "") =
      .ok { disk with top := disk.top.put (.file (.text "")) (folder ++ [probe]) } :=
    (write_eq_ok hleads.locate).mpr ⟨by simp [hnone], rfl⟩
  obtain ⟨hhome, hstay, houtline⟩ := write_spec hleads hwrite
  obtain ⟨removed, hremove, -⟩ :=
    remove_spec (hleads.of_foldersStay hhome hstay) ((houtline _).trans (if_pos rfl))
  refine ⟨removed, ?_⟩
  unfold prepare
  rw [h.made disk rfl fun _ hplace => hplace]
  simp only [hwrite, hremove]

/-- Writing another file leaves the directory ready. -/
theorem Ready.of_write (h : Ready destination disk) {folder : Place} {name : String}
    {contents : Contents} (hleads : disk.LeadsTo path folder name) (hname : name ≠ probe)
    (hwrite : disk.write path contents = .ok written) : Ready destination written := by
  obtain ⟨hhome, hstay, houtline⟩ := write_spec hleads hwrite
  obtain ⟨place, hprobe, hnone⟩ := h.writable
  refine ⟨fun other hother hfolders => ?_, place, hprobe.of_foldersStay hhome hstay, ?_⟩
  · exact h.made other (hother.trans hhome) (hstay.trans hfolders)
  · rw [houtline, if_neg fun heq => hname (append_name_inj heq).symm]
    exact hnone

/-- A text stays readable while the directory is prepared. -/
theorem readText_of_prepare (h : prepare destination disk = (.ok (), ready)) {name text : String}
    (hpath : path.EndsWith name) (hisName : IsName name) (hname : name ≠ probe)
    (hread : disk.readText path = .ok text) : ready.readText path = .ok text := by
  obtain ⟨-, hhome, hstay, htop, hfiles⟩ := prepare_spec h
  obtain ⟨place, hlocate, hfile⟩ := readText_eq_ok.mp hread
  obtain ⟨folder, rfl, hleads⟩ :=
    leadsTo_of_endsWith hpath hisName htop hlocate (by simp [hfile])
  exact readText_eq_ok.mpr ⟨folder ++ [name], locate_of_foldersStay hhome hstay hlocate,
    hfiles folder name _ hname hfile⟩

end Archive

end Logbook
