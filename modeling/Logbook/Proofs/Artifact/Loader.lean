import Logbook.Artifact.Loader
import Logbook.SortedMap.Lemmas

/-!
# An artifact loader answers as the list of artifacts does

`Listing.groupOf` reads the group of one key from the run's list of artifacts, without
any loader.  A loader looks a directory up again whenever it does not hold it, so the
invariant is only that what it holds is in the list.
-/

namespace Logbook

namespace Listing

/-- The group of artifacts that a run's list has for a key of the given type. -/
def groupOf (disk : Disk) (run : Path) (kind : String) (codec : Option Codec) (key : String) :
    Except Error Value :=
  match codec with
  | none => .error (.noCodec kind key)
  | some codec =>
      match disk.readText (Run.artifactRegistry run) with
      | .error _ => .error (.unreadableRegistry (Run.artifactRegistry run))
      | .ok text => do
          let listing ← ofText text
          let directory := Key.artifactDirectory kind key
          match (listing.get? kind).bind fun directories => directories.get? directory with
          | some names => .ok (group run kind codec directory names)
          | none => .error (.unlistedArtifact key (Run.artifactRegistry run))

theorem get?_groups (run : Path) (kind : String) (codec : Codec) (listing : Listing)
    (directory : String) :
    (groups run kind codec listing).get? directory =
      ((listing.get? kind).bind fun directories => directories.get? directory).map
        (group run kind codec directory) := by
  unfold groups
  cases listing.get? kind <;> simp

end Listing

namespace ArtifactLoader

/-- What a loader holds is in the list. -/
def Faithful (disk : Disk) (loader : ArtifactLoader) : Prop :=
  ∀ groups, loader.loaded = some groups → ∀ codec, loader.codec = some codec →
    ∃ whole, loader.read disk codec = .ok whole ∧
      ∀ directory group, groups.get? directory = some group → whole.get? directory = some group

/-- The group of a key is what the list as a whole has for its directory. -/
theorem groupOf_eq_read (disk : Disk) {loader : ArtifactLoader} {codec : Codec}
    (hcodec : loader.codec = some codec) (key : String) :
    Listing.groupOf disk loader.run loader.kind loader.codec key =
      (loader.read disk codec).bind fun whole =>
        (whole.get? (Key.artifactDirectory loader.kind key)).elim
          (.error (.unlistedArtifact key (Run.artifactRegistry loader.run))) .ok := by
  rw [hcodec]
  unfold Listing.groupOf read
  cases htext : disk.readText (Run.artifactRegistry loader.run) with
  | error fault => simp [htext]; rfl
  | ok text =>
    simp only [htext]
    cases hlisting : Listing.ofText text with
    | error error => rfl
    | ok listing =>
      show _ = ((Listing.groups loader.run loader.kind codec listing).get? _).elim
        (Except.error (Error.unlistedArtifact key (Run.artifactRegistry loader.run))) Except.ok
      rw [Listing.get?_groups]
      cases hnames : (listing.get? loader.kind).bind fun directories =>
          directories.get? (Key.artifactDirectory loader.kind key) with
      | none => simp [bind, Except.bind, hnames]
      | some names => simp [bind, Except.bind, hnames]

theorem answer_of_loaded (loader : ArtifactLoader) (key directory : String)
    {groups : SortedMap String Value} (hloaded : loader.loaded = some groups) :
    loader.answer key directory = (groups.get? directory).elim
      (.error (.unlistedArtifact key (Run.artifactRegistry loader.run))) .ok := by
  unfold answer
  rw [hloaded, Option.bind_some]
  cases groups.get? directory <;> rfl

/-- What asking can come to: there is no codec, the directory is held, the list is read,
or reading it fails. -/
theorem fetch_cases (disk : Disk) (loader : ArtifactLoader) (key : String) :
    (loader.codec = none ∧
        loader.fetch disk key = (.error (.noCodec loader.kind key), loader)) ∨
      ∃ codec, loader.codec = some codec ∧
        let directory := Key.artifactDirectory loader.kind key
        (∃ groups group, loader.loaded = some groups ∧ groups.get? directory = some group ∧
            loader.fetch disk key = (.ok group, loader.touch directory)) ∨
          (∃ whole, loader.read disk codec = .ok whole ∧
            loader.fetch disk key =
              ((whole.get? directory).elim
                (.error (.unlistedArtifact key (Run.artifactRegistry loader.run))) .ok,
                { loader.touch directory with loaded := some whole })) ∨
          ∃ error, loader.read disk codec = .error error ∧
            loader.fetch disk key = (.error error, loader.touch directory) := by
  cases hcodec : loader.codec with
  | none => exact Or.inl ⟨rfl, by simp [fetch, hcodec]⟩
  | some codec =>
    refine Or.inr ⟨codec, rfl, ?_⟩
    intro directory
    by_cases hheld : (loader.loaded.map fun groups => groups.contains directory).getD false
    · obtain ⟨groups, hloaded, hcontains⟩ : ∃ groups, loader.loaded = some groups ∧
          groups.contains directory = true := by
        cases hloaded : loader.loaded <;> simp_all
      obtain ⟨group, hgroup⟩ := Option.isSome_iff_exists.mp hcontains
      refine Or.inl ⟨groups, group, hloaded, hgroup, ?_⟩
      simp only [fetch, hcodec]
      rw [if_pos hheld]
      rw [answer_of_loaded (loader.touch directory) key directory hloaded, hgroup]
      rfl
    · cases hread : loader.read disk codec with
      | ok whole =>
        refine Or.inr (Or.inl ⟨whole, rfl, ?_⟩)
        simp only [fetch, hcodec]
        rw [if_neg hheld, hread]
        exact congrArg (Prod.mk · _) (answer_of_loaded _ key directory rfl)
      | error error =>
        refine Or.inr (Or.inr ⟨error, rfl, ?_⟩)
        simp only [fetch, hcodec]
        rw [if_neg hheld, hread]

/-- **Asking a faithful loader gives the group that the list has.** -/
theorem fetch_eq_groupOf {disk : Disk} {loader : ArtifactLoader} (h : loader.Faithful disk)
    (key : String) :
    (loader.fetch disk key).1 =
      Listing.groupOf disk loader.run loader.kind loader.codec key := by
  obtain ⟨hcodec, hfetch⟩ | ⟨codec, hcodec, hcases⟩ := fetch_cases disk loader key
  · rw [hfetch, hcodec]
    rfl
  · rw [groupOf_eq_read disk hcodec key]
    obtain ⟨groups, group, hloaded, hgroup, hfetch⟩ | ⟨whole, hread, hfetch⟩ |
      ⟨error, hread, hfetch⟩ := hcases
    · obtain ⟨whole, hread, hpart⟩ := h groups hloaded codec hcodec
      rw [hfetch, hread]
      show _ = (whole.get? _).elim _ _
      rw [hpart _ group hgroup]
      rfl
    · rw [hfetch, hread]
      rfl
    · rw [hfetch, hread]
      rfl

theorem faithful_fetch {disk : Disk} {loader : ArtifactLoader} (h : loader.Faithful disk)
    (key : String) : (loader.fetch disk key).2.Faithful disk := by
  obtain ⟨-, hfetch⟩ | ⟨codec, hcodec, hcases⟩ := fetch_cases disk loader key
  · rw [hfetch]
    exact h
  · obtain ⟨groups, group, -, -, hfetch⟩ | ⟨whole, hread, hfetch⟩ | ⟨error, -, hfetch⟩ := hcases
    · rw [hfetch]
      exact h
    · rw [hfetch]
      intro groups hloaded other hother
      cases hloaded
      obtain rfl : codec = other := Option.some_inj.mp (hcodec.symm.trans hother)
      exact ⟨whole, hread, fun _ _ hget => hget⟩
    · rw [hfetch]
      exact h

theorem faithful_release {disk : Disk} {loader : ArtifactLoader} (h : loader.Faithful disk) :
    loader.release.Faithful disk := by
  unfold release
  by_cases htouched : loader.touched
  · rw [if_pos htouched]
    intro kept hkept codec hcodec
    obtain ⟨groups, hloaded, rfl⟩ := Option.map_eq_some_iff.mp hkept
    obtain ⟨whole, hread, hpart⟩ := h groups hloaded codec hcodec
    refine ⟨whole, hread, fun directory group hget => ?_⟩
    rw [SortedMap.get?_filter] at hget
    exact hpart directory group (Option.filter_eq_some_iff.mp hget).1
  · rw [if_neg htouched]
    intro kept hkept
    contradiction

/-! ## Steps of a loader -/

/-- A later state of a loader: for the same artifacts, and faithful if the loader was. -/
structure Continues (disk : Disk) (state later : ArtifactLoader) : Prop where
  run : later.run = state.run
  kind : later.kind = state.kind
  codec : later.codec = state.codec
  faithful : state.Faithful disk → later.Faithful disk

theorem Continues.refl (disk : Disk) (state : ArtifactLoader) : state.Continues disk state :=
  ⟨rfl, rfl, rfl, id⟩

theorem Continues.trans {disk : Disk} {first second third : ArtifactLoader}
    (hfirst : first.Continues disk second) (hsecond : second.Continues disk third) :
    first.Continues disk third :=
  ⟨hsecond.run.trans hfirst.run, hsecond.kind.trans hfirst.kind,
    hsecond.codec.trans hfirst.codec, hsecond.faithful ∘ hfirst.faithful⟩

theorem continues_fetch (disk : Disk) (loader : ArtifactLoader) (key : String) :
    loader.Continues disk (loader.fetch disk key).2 := by
  refine ⟨?_, ?_, ?_, fun h => faithful_fetch h key⟩ <;>
    obtain ⟨-, hfetch⟩ | ⟨_, -, ⟨_, _, -, -, hfetch⟩ | ⟨_, -, hfetch⟩ | ⟨_, -, hfetch⟩⟩ :=
      fetch_cases disk loader key <;>
    rw [hfetch] <;> rfl

theorem continues_release (disk : Disk) (loader : ArtifactLoader) :
    loader.Continues disk loader.release := by
  refine ⟨?_, ?_, ?_, faithful_release⟩ <;> unfold release <;> split <;> rfl

end ArtifactLoader

end Logbook
