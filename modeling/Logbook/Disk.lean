import Logbook.Path

/-!
# Disks

A `Disk` holds the files that runs have written and that the library reads and
writes.  It is a tree of folders whose top has a path of its own, its home; paths
that do not start there lead nowhere.  A path is followed step by step, so every
step but the last has to be a folder, also one that a later step leaves again.
-/

namespace Logbook

/-- What a file holds. -/
inductive Contents where
  /-- Text. -/
  | text (text : String)
  /-- Bytes that are not the encoding of a text. -/
  | binary (bytes : List UInt8)

namespace Contents

/-- The text that bytes encode. -/
def decode? (bytes : List UInt8) : Option String := String.fromUTF8? ⟨bytes.toArray⟩

/-- The contents of a file with the given bytes. -/
def ofBytes (bytes : List UInt8) : Contents := (decode? bytes).elim (binary bytes) text

/-- The text in a file, if it holds text. -/
def text? : Contents → Option String
  | .text words => some words
  | .binary _ => none

/-- The pieces of a list between the occurrences of an item. -/
def split {α : Type} [BEq α] (separator : α) : List α → List (List α)
  | [] => [[]]
  | item :: rest =>
      match split separator rest with
      | [] => [[item]]
      | piece :: pieces =>
          if item == separator then [] :: piece :: pieces else (item :: piece) :: pieces

/-- The lines of a file; a line that is not text is `none`. -/
def lines : Contents → List (Option String)
  | .text words => (split '\n' words.toList).map fun line => some (String.ofList line)
  | .binary bytes => (split 10 bytes).map decode?

end Contents

/-- What lies at a place of a disk. -/
inductive Entry where
  /-- A file. -/
  | file (contents : Contents)
  /-- A folder with its entries, each name once. -/
  | folder (entries : List (String × Entry))

/-- A place on a disk, as the names on the way from the top. -/
abbrev Place := List String

namespace Entry

instance : Inhabited Entry := ⟨.folder []⟩

/-- The entry of a name. -/
def named? (name : String) (entries : List (String × Entry)) : Option Entry :=
  (entries.find? fun entry => entry.1 == name).map Prod.snd

/-- Gives a name an entry, in the place of the one it has. -/
def withNamed (name : String) (entry : Entry) : List (String × Entry) → List (String × Entry)
  | [] => [(name, entry)]
  | other :: entries =>
      if other.1 == name then (name, entry) :: entries else other :: withNamed name entry entries

/-- The entry at a place. -/
def at? (top : Entry) : Place → Option Entry
  | [] => some top
  | name :: place =>
      match top with
      | file _ => none
      | folder entries => (named? name entries).bind fun entry => entry.at? place

/-- Puts an entry at a place, in the place of one that is there.  The folders on the
way are made where they are missing; beyond a file nothing is put. -/
def put (top : Entry) (entry : Entry) : Place → Entry
  | [] => entry
  | name :: place =>
      match top with
      | file contents => file contents
      | folder entries =>
          folder (withNamed name (((named? name entries).getD (folder [])).put entry place) entries)

/-- Takes away the entry at a place, which is not the top. -/
def erase (top : Entry) : Place → Entry
  | [] => top
  | name :: place =>
      match top with
      | file contents => file contents
      | folder entries =>
          if place.isEmpty then folder (entries.filter fun entry => entry.1 != name)
          else match named? name entries with
            | some entry => folder (withNamed name (entry.erase place) entries)
            | none => folder entries

end Entry

/-- Why a disk refuses. -/
inductive Fault where
  /-- There is nothing at a path. -/
  | notFound
  /-- A path leads through a file. -/
  | notFolder
  /-- There is a folder where a file has to be. -/
  | isFolder
  /-- There is something where a folder has to be made. -/
  | taken
  /-- A path has a name that no entry can have. -/
  | badName
  /-- A file does not hold text. -/
  | notText
  deriving DecidableEq, Repr

/-- A tree of files and folders. -/
structure Disk where
  /-- The path of the top. -/
  home : Path
  /-- What lies below it. -/
  top : Entry

namespace Disk

/-- A disk without files. -/
def empty (home : Path) : Disk := ⟨home, .folder []⟩

/-- How many bytes the name of an entry may have. -/
def maxNameLength : Nat := 255

/-- Where the steps of a path lead from a place.  There may be nothing. -/
def follow (top : Entry) (here : Place) : List String → Except Fault Place
  | [] => .ok here
  | step :: steps =>
      match top.at? here with
      | none => .error .notFound
      | some (.file _) => .error .notFolder
      | some (.folder _) =>
          if step == "" || step == "." then follow top here steps
          else if step == ".." then
            if here.isEmpty then .error .notFound else follow top here.dropLast steps
          else if maxNameLength < step.utf8ByteSize then .error .badName
          else follow top (here ++ [step]) steps

/-- The steps from home along a path that starts there. -/
def stepsFromHome? (disk : Disk) (path : Path) : Option (List String) :=
  go (Path.pieces '/' disk.home.text) (Path.pieces '/' path.text)
where
  go : List String → List String → Option (List String)
    | [], steps => some steps
    | _ :: _, [] => none
    | name :: home, step :: steps => if name == step then go home steps else none

/-- The place that a path leads to. -/
def locate (disk : Disk) (path : Path) : Except Fault Place :=
  if path.text.toList.contains '\x00' then .error .badName
  else match disk.stepsFromHome? path with
    | some steps => follow disk.top [] steps
    | none => .error .notFound

/-- What lies at a path. -/
def entry (disk : Disk) (path : Path) : Except Fault Entry := do
  match disk.top.at? (← disk.locate path) with
  | some entry => .ok entry
  | none => .error .notFound

/-- Whether there is anything at a path. -/
def exists? (disk : Disk) (path : Path) : Bool := (disk.entry path).isOk

/-- Whether there is a file at a path. -/
def isFile (disk : Disk) (path : Path) : Bool :=
  match disk.entry path with
  | .ok (.file _) => true
  | _ => false

/-- Whether there is a folder at a path. -/
def isFolder (disk : Disk) (path : Path) : Bool :=
  match disk.entry path with
  | .ok (.folder _) => true
  | _ => false

/-- The contents of the file at a path. -/
def read (disk : Disk) (path : Path) : Except Fault Contents := do
  match ← disk.entry path with
  | .file contents => .ok contents
  | .folder _ => .error .isFolder

/-- The text in the file at a path. -/
def readText (disk : Disk) (path : Path) : Except Fault String := do
  match (← disk.read path).text? with
  | some text => .ok text
  | none => .error .notText

/-- The entries of the folder at a path. -/
def list (disk : Disk) (path : Path) : Except Fault (List (String × Entry)) := do
  match ← disk.entry path with
  | .folder entries => .ok entries
  | .file _ => .error .notFolder

/-- The path of the place that a path leads to, if there is anything. -/
def canonical? (disk : Disk) (path : Path) : Option Path :=
  match disk.locate path with
  | .ok place =>
      if (disk.top.at? place).isSome then some (place.foldl Path.join disk.home) else none
  | .error _ => none

/-- Writes a file, in the place of one that is there. -/
def write (disk : Disk) (path : Path) (contents : Contents) : Except Fault Disk := do
  let place ← disk.locate path
  match disk.top.at? place with
  | some (.folder _) => .error .isFolder
  | _ => .ok { disk with top := disk.top.put (.file contents) place }

/-- Takes away the file or the folder with all its entries at a path. -/
def remove (disk : Disk) (path : Path) : Except Fault Disk := do
  let place ← disk.locate path
  if place.isEmpty then return { disk with top := .folder [] }
  match disk.top.at? place with
  | some _ => return { disk with top := disk.top.erase place }
  | none => .error .notFound

/-! ## Making folders -/

/-- Makes the folder that steps lead to.  All of them but the last have to lead to a
folder, and the last has to be a new name; slashes behind it make no difference. -/
def makeFolder (top : Entry) (steps : List String) : Except Fault Entry :=
  match steps.reverse.dropWhile fun step => step == "" with
  | [] => .error .taken
  | name :: before => do
      let place ← follow top [] before.reverse
      match top.at? place with
      | none => .error .notFound
      | some (.file _) => .error .notFolder
      | some (.folder entries) =>
          if name == "." || name == ".." || (Entry.named? name entries).isSome then .error .taken
          else if maxNameLength < name.utf8ByteSize then .error .badName
          else .ok (top.put (.folder []) (place ++ [name]))

/-- Steps without those at the end that stay where they are. -/
def settled (steps : List String) : List String :=
  (steps.reverse.dropWhile fun step => step == "" || step == ".").reverse

/-- Makes the folder that steps lead to, and those on the way that are missing; there are
at most `fuel` of them.  A single dot is no folder that could be missing, so one at the
end in a missing folder leads nowhere. -/
def makeFoldersAt : (fuel : Nat) → Entry → List String → Except Fault Unit × Entry
  | 0, top, _ => (.error .notFound, top)
  | fuel + 1, top, steps =>
      let isThere (top : Entry) : Bool :=
        match (follow top [] steps).toOption.bind top.at? with
        | some (.folder _) => true
        | _ => false
      match makeFolder top steps with
      | .ok top => (.ok (), top)
      | .error .notFound =>
          match makeFoldersAt fuel top (settled (settled steps).dropLast) with
          | (.error fault, top) => (.error fault, top)
          | (.ok (), top) =>
              match makeFolder top steps with
              | .ok top => (.ok (), top)
              | .error fault => (if isThere top then .ok () else .error fault, top)
      | .error fault => (if isThere top then .ok () else .error fault, top)

/-- Makes the folder at a path and those above it where they are missing. -/
def makeFolders (disk : Disk) (path : Path) : Except Fault Unit × Disk :=
  if path.text.toList.contains '\x00' then (.error .badName, disk)
  else match disk.stepsFromHome? path with
    | some steps =>
        let (outcome, top) := makeFoldersAt (steps.length + 1) disk.top steps
        (outcome, { disk with top := top })
    | none => (.error .notFound, disk)

end Disk

end Logbook
