/-!
# Paths

A path is kept as the text it was built from, which is also how messages show it.
Two paths name the same place when their steps agree, so doubled slashes, a slash
at the end and a single dot between other steps make no difference.
-/

namespace Logbook

/-- A file path. -/
structure Path where
  /-- The path as text, its steps separated by slashes. -/
  text : String
  deriving DecidableEq, Inhabited

namespace Path

/-- One step of a path. -/
inductive Step where
  /-- From the top of the file system. -/
  | root
  /-- From the current directory; only at the start of a path. -/
  | current
  /-- Up to the parent directory. -/
  | parent
  /-- Down to an entry. -/
  | entry (name : String)
  deriving DecidableEq

/-- The place of a step's kind in the order of steps. -/
def Step.rank : Step → Nat
  | .root => 0
  | .current => 1
  | .parent => 2
  | .entry _ => 3

/-- Steps are ordered by kind, entries by name. -/
def Step.order : Step → Step → Ordering
  | .entry left, .entry right => compare left right
  | left, right => compare left.rank right.rank

instance : Ord Step := ⟨Step.order⟩

/-- Cuts a text at every occurrence of a character. -/
def splitChars (separator : Char) : List Char → List (List Char)
  | [] => [[]]
  | c :: rest =>
      match splitChars separator rest with
      | [] => [[c]]
      | piece :: pieces => if c == separator then [] :: piece :: pieces else (c :: piece) :: pieces

/-- The pieces of a text between the occurrences of a character. -/
def pieces (separator : Char) (text : String) : List String :=
  (splitChars separator text.toList).map String.ofList

/-- Whether a path starts at the top of the file system. -/
def isAbsolute (path : Path) : Bool := path.text.toList.head? == some '/'

/-- The steps of a path. -/
def steps (path : Path) : List Step :=
  let names := pieces '/' path.text
  let start :=
    if path.isAbsolute then [Step.root] else if names.head? == some "." then [.current] else []
  start ++ names.filterMap fun name =>
    if name == "" || name == "." then none
    else if name == ".." then some .parent
    else some (.entry name)

/-- The path one step or more below another; an absolute path stands for itself. -/
def join (base : Path) (part : String) : Path :=
  if part.toList.head? == some '/' then ⟨part⟩
  else if base.text == "" || base.text.toList.getLast? == some '/' then ⟨base.text ++ part⟩
  else ⟨base.text ++ "/" ++ part⟩

instance : ToString Path := ⟨Path.text⟩

/-- Whether two paths have the same steps. -/
def same (left right : Path) : Bool := left.steps == right.steps

/-- The order of paths, step by step. -/
def order (left right : Path) : Ordering := compare left.steps right.steps

end Path

end Logbook
