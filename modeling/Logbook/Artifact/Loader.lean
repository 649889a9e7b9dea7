import Logbook.Artifact.Listing

/-!
# Loading groups of artifacts on demand

A loader reads the list of a run's artifacts when a directory is asked for that it
does not hold.  Releasing it works as for metric logs; a directory that is not held
is looked up again in any case, so there is no need to know whether all are held.
-/

namespace Logbook

/-- What has been loaded of the artifacts of one type. -/
structure ArtifactLoader where
  /-- The directory of the run. -/
  run : Path
  /-- The type of the artifacts. -/
  kind : String
  /-- How artifacts of the type are stored, if that is known. -/
  codec : Option Codec
  /-- The groups that are held, by directory. -/
  loaded : Option (SortedMap String Value) := none
  /-- The directories that have ever been asked for. -/
  requested : List String := []
  /-- Whether a directory was asked for since the last release. -/
  touched : Bool := false

namespace ArtifactLoader

/-- The groups that the list of the run's artifacts has now. -/
def read (disk : Disk) (loader : ArtifactLoader) (codec : Codec) :
    Except Error (SortedMap String Value) := do
  let registry := Run.artifactRegistry loader.run
  match disk.readText registry with
  | .ok text => return Listing.groups loader.run loader.kind codec (← Listing.ofText text)
  | .error _ => .error (.unreadableRegistry registry)

/-- The loader after a directory has been asked for. -/
def touch (loader : ArtifactLoader) (directory : String) : ArtifactLoader :=
  { loader with touched := true, requested := loader.requested.insert directory }

/-- The group of a key among those that are held. -/
def answer (loader : ArtifactLoader) (key directory : String) : Except Error Value :=
  match loader.loaded.bind fun groups => groups.get? directory with
  | some group => .ok group
  | none => .error (.unlistedArtifact key (Run.artifactRegistry loader.run))

/-- The group of a key, and the loader afterwards. -/
def fetch (disk : Disk) (loader : ArtifactLoader) (key : String) :
    Except Error Value × ArtifactLoader :=
  match loader.codec with
  | none => (.error (.noCodec loader.kind key), loader)
  | some codec =>
      let directory := Key.artifactDirectory loader.kind key
      let asked := loader.touch directory
      let held := (loader.loaded.map fun groups => groups.contains directory).getD false
      if held then (asked.answer key directory, asked)
      else match loader.read disk codec with
        | .ok groups =>
            let read := { asked with loaded := some groups }
            (read.answer key directory, read)
        | .error error => (.error error, asked)

/-- The loader after it has been released. -/
def release (loader : ArtifactLoader) : ArtifactLoader :=
  if loader.touched then
    { loader with
      loaded := loader.loaded.map fun groups =>
        groups.filter fun directory _ => loader.requested.contains directory
      touched := false }
  else { loader with loaded := none }

end ArtifactLoader

end Logbook
