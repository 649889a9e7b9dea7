import Logbook.Proofs.Metric.Loader
import Logbook.Proofs.Outcome

/-!
# How often a metric log is read

A loader is asked for series and released, in any order, while its log does not change and
can be read.  The log is read at most once between two releases, and not again for a series
that it has and was asked for before, as long as there are not two releases in a row since
then (`MetricLoader.economical`).  After two in a row nothing is held.

## Strategy

`Use.reads` counts as the loader does: asking reads the log where `mustRead` says so, and
what is asked for otherwise does not depend on the disk (`fetch_of_held`).

* Whoever has just read holds all of the log, and needs no further reading until the next
  release (`readings_of_complete`).
* A series that was asked for stays held through every use but a release of an untouched
  loader (`Holds`).  Asking touches the loader, so such a release comes right behind another.
-/

namespace Logbook

namespace MetricLoader

variable {disk : Disk} {loader : MetricLoader} {key : String} {whole : SortedMap String Value}

/-! ## Asking with and without reading -/

/-- The log of a loader has these series. -/
def Reads (disk : Disk) (loader : MetricLoader) (whole : SortedMap String Value) : Prop :=
  MetricLog.read disk loader.path loader.log = .ok whole

theorem fetch_of_read (hread : loader.Reads disk whole)
    (hmust : (loader.touch key).mustRead key = true) :
    (loader.fetch disk key).2 =
      { loader.touch key with loaded := some whole, complete := true } := by
  unfold Reads at hread
  simp only [fetch, hmust, if_true]
  rw [hread]

/-- What is held is not read again, whatever the disk has become. -/
theorem fetch_of_held (disk : Disk) (hmust : (loader.touch key).mustRead key = false) :
    loader.fetch disk key = ((loader.touch key).answer key, loader.touch key) := by
  simp only [fetch, hmust]
  rfl

theorem mustRead_eq_false_iff : loader.mustRead key = false ↔
    ∃ series, loader.loaded = some series ∧
      (series.contains key = true ∨ loader.complete = true) := by
  unfold mustRead
  cases loader.loaded with
  | none => simp
  | some series => cases hkey : series.contains key <;> simp [hkey]

/-- What asking leaves: either everything has been read, or it is all as before. -/
theorem fetch_loader_cases (hread : loader.Reads disk whole) (key : String) :
    (loader.fetch disk key).2 =
        { loader.touch key with loaded := some whole, complete := true } ∨
      (loader.touch key).mustRead key = false ∧
        (loader.fetch disk key).2 = loader.touch key := by
  cases hmust : (loader.touch key).mustRead key with
  | true => exact .inl (fetch_of_read hread hmust)
  | false => exact .inr ⟨rfl, congrArg Prod.snd (fetch_of_held disk hmust)⟩

theorem touched_fetch (disk : Disk) (loader : MetricLoader) (key : String) :
    (loader.fetch disk key).2.touched = true := by
  obtain ⟨_, _, hfetch⟩ | ⟨_, _, hfetch⟩ | ⟨_, _, _, hfetch⟩ := fetch_cases disk loader key <;>
    rw [hfetch] <;> rfl

theorem requested_fetch (disk : Disk) (loader : MetricLoader) (key : String) :
    (loader.fetch disk key).2.requested = loader.requested.insert key := by
  obtain ⟨_, _, hfetch⟩ | ⟨_, _, hfetch⟩ | ⟨_, _, _, hfetch⟩ := fetch_cases disk loader key <;>
    rw [hfetch] <;> rfl

/-! ## Releasing -/

theorem requested_release (loader : MetricLoader) : loader.release.requested = loader.requested := by
  unfold release
  cases loader.loaded <;> cases loader.touched <;> rfl

/-- A release leaves only series that were asked for. -/
theorem requested_of_loaded_release {kept : SortedMap String Value}
    (h : loader.release.loaded = some kept) : ∀ key ∈ kept.keys, key ∈ loader.requested := by
  unfold release at h
  cases hloaded : loader.loaded with
  | none => simp [hloaded] at h
  | some series =>
    rw [hloaded] at h
    cases htouched : loader.touched with
    | false => simp [htouched] at h
    | true =>
      rw [htouched] at h
      cases h
      intro key hkey
      obtain ⟨value, hvalue⟩ := SortedMap.mem_keys.mp hkey
      exact List.contains_iff_mem.mp (List.mem_filter.mp hvalue).2

/-- A release after a release leaves nothing. -/
theorem loaded_release_release (loader : MetricLoader) : loader.release.release.loaded = none := by
  cases hloaded : loader.loaded with
  | none => simp [release, hloaded]
  | some series => cases htouched : loader.touched <;> simp [release, hloaded, htouched]

/-! ## Uses of a loader -/

/-- What a loader is used for. -/
inductive Use where
  /-- Asks for the series of a key. -/
  | get (key : String)
  /-- Releases what is not needed. -/
  | release
  deriving DecidableEq

/-- The loader after it has been used. -/
def Use.step (disk : Disk) (loader : MetricLoader) : Use → MetricLoader
  | get key => (loader.fetch disk key).2
  | release => loader.release

/-- How often the log is read when the loader is used. -/
def Use.reads (loader : MetricLoader) : Use → Nat
  | get key => if (loader.touch key).mustRead key then 1 else 0
  | release => 0

/-- The loader after a history of uses. -/
def after (disk : Disk) (loader : MetricLoader) (uses : List Use) : MetricLoader :=
  uses.foldl (Use.step disk) loader

/-- How often the log is read in a history of uses. -/
def readings (disk : Disk) : MetricLoader → List Use → Nat
  | _, [] => 0
  | loader, use :: uses => use.reads loader + readings disk (use.step disk loader) uses

theorem after_append (disk : Disk) (loader : MetricLoader) (first second : List Use) :
    loader.after disk (first ++ second) = (loader.after disk first).after disk second :=
  List.foldl_append

theorem continues_step (disk : Disk) (loader : MetricLoader) (use : Use) :
    loader.Continues disk (use.step disk loader) := by
  cases use with
  | get key => exact continues_fetch disk loader key
  | release => exact continues_release disk loader

theorem continues_after (disk : Disk) (loader : MetricLoader) (uses : List Use) :
    loader.Continues disk (loader.after disk uses) := by
  induction uses generalizing loader with
  | nil => exact .refl disk loader
  | cons use uses ih => exact (continues_step disk loader use).trans (ih _)

theorem Reads.continues {later : MetricLoader} (hread : loader.Reads disk whole)
    (h : loader.Continues disk later) : later.Reads disk whole := by
  unfold Reads
  rw [h.path, h.log]
  exact hread

theorem mem_requested_after (disk : Disk) (loader : MetricLoader) (uses : List Use)
    (key : String) :
    key ∈ (loader.after disk uses).requested ↔ key ∈ loader.requested ∨ .get key ∈ uses := by
  induction uses generalizing loader with
  | nil => simp [after]
  | cons use uses ih =>
    refine (ih (use.step disk loader)).trans ?_
    cases use with
    | get other =>
      rw [Use.step, requested_fetch, List.mem_insert_iff, List.mem_cons, Use.get.injEq, or_assoc,
        or_left_comm]
    | release => simp [Use.step, requested_release]

/-! ## Between two releases -/

/-- A loader that holds the whole log does not read it while it is only asked. -/
theorem readings_of_complete (disk : Disk) (hloaded : loader.loaded.isSome = true)
    (hcomplete : loader.complete = true) (keys : List String) :
    readings disk loader (keys.map .get) = 0 := by
  induction keys generalizing loader with
  | nil => rfl
  | cons key keys ih =>
    obtain ⟨series, hseries⟩ := Option.isSome_iff_exists.mp hloaded
    have hmust : (loader.touch key).mustRead key = false :=
      mustRead_eq_false_iff.mpr ⟨series, hseries, .inr hcomplete⟩
    have hstep : (Use.get key).step disk loader = loader.touch key :=
      congrArg Prod.snd (fetch_of_held disk hmust)
    rw [List.map_cons, readings, hstep, Use.reads, hmust]
    have hrest : readings disk (loader.touch key) (keys.map .get) = 0 := ih hloaded hcomplete
    simpa using hrest

/-- Asking alone reads the log at most once. -/
theorem readings_le_one (hread : loader.Reads disk whole) (keys : List String) :
    readings disk loader (keys.map .get) ≤ 1 := by
  induction keys generalizing loader with
  | nil => exact Nat.zero_le 1
  | cons key keys ih =>
    rw [List.map_cons, readings, Use.reads]
    cases hmust : (loader.touch key).mustRead key with
    | true =>
      have hstep : (Use.get key).step disk loader =
          { loader.touch key with loaded := some whole, complete := true } :=
        fetch_of_read hread hmust
      rw [hstep, readings_of_complete disk rfl rfl]
      simp
    | false =>
      have hrest := ih (hread.continues (continues_step disk loader (.get key)))
      simpa using hrest

/-! ## A series that was asked for -/

/-- A series is held, and was asked for. -/
structure Holds (loader : MetricLoader) (key : String) : Prop where
  requested : key ∈ loader.requested
  held : ∃ series, loader.loaded = some series ∧ series.contains key = true

theorem Holds.reads_eq_zero (h : loader.Holds key) : (Use.get key).reads loader = 0 := by
  obtain ⟨series, hloaded, hkey⟩ := h.held
  have hmust : (loader.touch key).mustRead key = false :=
    mustRead_eq_false_iff.mpr ⟨series, hloaded, .inl hkey⟩
  rw [Use.reads, hmust]
  rfl

/-- After asking for a series of the log, it is held. -/
theorem holds_fetch_self (hread : loader.Reads disk whole) (hfaithful : loader.Faithful disk)
    (hkey : whole.contains key = true) : (loader.fetch disk key).2.Holds key := by
  refine ⟨?_, ?_⟩
  · rw [requested_fetch]
    exact List.mem_insert_self
  · rcases fetch_loader_cases hread key with hfetch | ⟨hmust, hfetch⟩ <;> rw [hfetch]
    · exact ⟨whole, rfl, hkey⟩
    · obtain ⟨series, hloaded, hcontains | hcomplete⟩ := mustRead_eq_false_iff.mp hmust
      · exact ⟨series, hloaded, hcontains⟩
      · -- A faithful loader that says it is complete holds the whole log.
        obtain ⟨same, hsame, -, hall⟩ := hfaithful series hloaded
        cases hread.symm.trans hsame
        exact ⟨series, hloaded, by rw [hall hcomplete, hkey]⟩

theorem Holds.fetch (h : loader.Holds key) (hread : loader.Reads disk whole)
    (hkey : whole.contains key = true) (other : String) :
    (loader.fetch disk other).2.Holds key := by
  refine ⟨?_, ?_⟩
  · rw [requested_fetch]
    exact List.mem_insert_of_mem h.requested
  · rcases fetch_loader_cases hread other with hfetch | ⟨-, hfetch⟩ <;> rw [hfetch]
    · exact ⟨whole, rfl, hkey⟩
    · exact h.held

/-- Releasing a loader that was touched keeps what was asked for. -/
theorem Holds.release (h : loader.Holds key) (htouched : loader.touched = true) :
    loader.release.Holds key := by
  refine ⟨by rw [requested_release]; exact h.requested, ?_⟩
  obtain ⟨series, hloaded, hkey⟩ := h.held
  refine ⟨series.filter fun key _ => loader.requested.contains key, ?_, ?_⟩
  · simp [MetricLoader.release, hloaded, htouched]
  · obtain ⟨value, hvalue⟩ := Option.isSome_iff_exists.mp hkey
    have hrequested : loader.requested.contains key = true := List.contains_iff_mem.mpr h.requested
    rw [SortedMap.contains, SortedMap.get?_filter, hvalue, Option.filter_some, hrequested]
    rfl

/-- A series stays held unless there are two releases in a row.  The first of `uses` is one
that can be behind a release only if the loader has been touched since. -/
theorem Holds.after {uses : List Use} (h : loader.Holds key) (hread : loader.Reads disk whole)
    (hkey : whole.contains key = true)
    (hfirst : loader.touched = true ∨ uses.head? ≠ some .release)
    (hrow : ¬ [Use.release, .release] <:+: uses) : (loader.after disk uses).Holds key := by
  induction uses generalizing loader with
  | nil => exact h
  | cons use uses ih =>
    have hrest : ¬ [Use.release, .release] <:+: uses := fun hin => hrow (List.infix_cons hin)
    have hread' := hread.continues (continues_step disk loader use)
    cases use with
    | get other =>
      exact ih (h.fetch hread hkey other) hread' (.inl (touched_fetch disk loader other)) hrest
    | release =>
      have htouched : loader.touched = true := hfirst.resolve_right fun hne => hne rfl
      refine ih (h.release htouched) hread' (.inr fun hnext => ?_) hrest
      obtain ⟨rest, rfl⟩ := List.head?_eq_some_iff.mp hnext
      exact hrow (List.prefix_append [Use.release, .release] rest).isInfix

/-! ## The loader of a run -/

/-- What holds of the loader for a log of a run, with these series in the log. -/
structure Economical (disk : Disk) (run : Path) (log : String) (whole : SortedMap String Value) :
    Prop where
  /-- Between two releases the log is read at most once. -/
  once : ∀ history (keys : List String),
    readings disk ((ofRun run log).after disk history) (keys.map .get) ≤ 1
  /-- A series of the log that was asked for before is not read again, if there were not two
  releases in a row in between. -/
  again : ∀ before between key, whole.contains key = true →
    ¬ [Use.release, .release] <:+: between →
      (Use.get key).reads ((ofRun run log).after disk (before ++ .get key :: between)) = 0
  /-- Where nothing is counted the disk does not matter. -/
  counts : ∀ loader key, (Use.get key).reads loader = 0 → ∀ other : Disk,
    loader.fetch other key = loader.fetch disk key
  /-- After a release only series are held that were asked for. -/
  trimmed : ∀ history kept, ((ofRun run log).after disk (history ++ [.release])).loaded = some kept →
    ∀ key ∈ kept.keys, Use.get key ∈ history
  /-- After two releases in a row nothing is held. -/
  evicted : ∀ history, ((ofRun run log).after disk (history ++ [.release, .release])).loaded = none

/-- **A loader is economical with a log that can be read and does not change.** -/
theorem economical {run : Path} {log : String}
    (hread : MetricLog.read disk (Run.metricLog run log) log = .ok whole) :
    Economical disk run log whole where
  once history keys := by
    have hstart : (ofRun run log).Reads disk whole := hread
    exact readings_le_one (hstart.continues (continues_after disk _ history)) keys
  again before between key hkey hrow := by
    have hstart : (ofRun run log).Reads disk whole := hread
    have hbefore := continues_after disk (ofRun run log) before
    have hasked := hstart.continues hbefore
    have hfaithful := hbefore.faithful (faithful_ofRun disk run log)
    have hafter : (ofRun run log).after disk (before ++ .get key :: between) =
        (((ofRun run log).after disk before).fetch disk key).2.after disk between :=
      after_append disk _ before (.get key :: between)
    rw [hafter]
    refine Holds.reads_eq_zero ((holds_fetch_self hasked hfaithful hkey).after ?_ hkey
      (.inl (touched_fetch disk _ key)) hrow)
    exact hasked.continues (continues_fetch disk _ key)
  counts loader key hzero other := by
    have hmust : (loader.touch key).mustRead key = false := by
      cases h : (loader.touch key).mustRead key with
      | false => rfl
      | true => simp [Use.reads, h] at hzero
    rw [fetch_of_held other hmust, fetch_of_held disk hmust]
  trimmed history kept hkept key hmem := by
    rw [after_append] at hkept
    have hrequested := requested_of_loaded_release hkept key hmem
    simpa [ofRun] using (mem_requested_after disk (ofRun run log) history key).mp hrequested
  evicted history := by
    rw [after_append]
    exact loaded_release_release _

/-- The disk of one run with two fields in a metric log. -/
def twoFields : Disk :=
  ⟨⟨"/1"⟩, .folder [("metrics", .folder
    [("train.json", .file (.text "\x7b\"loss\": 1.5, \"epoch\": 0\x7d\n"))])]⟩

theorem economical_twoFields : ∃ whole,
    MetricLog.read twoFields (Run.metricLog ⟨"/1"⟩ "train") "train" = .ok whole ∧
      whole.keys = ["train.epoch", "train.loss"] ∧ Economical twoFields ⟨"/1"⟩ "train" whole := by
  have hkeys : (MetricLog.read twoFields (Run.metricLog ⟨"/1"⟩ "train") "train").toOption.map
      SortedMap.keys = some ["train.epoch", "train.loss"] := by decide +kernel
  obtain ⟨whole, hwhole, hkeys⟩ := Option.map_eq_some_iff.mp hkeys
  have hread := Outcome.eq_ok_of_toOption hwhole
  exact ⟨whole, hread, hkeys, economical hread⟩

end MetricLoader

end Logbook
