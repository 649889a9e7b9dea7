import Logbook.Yaml.Token.Basic

/-!
# Block scalars

A block scalar has a head, which says how line ends behind it are kept and how deep it
is indented, and then lines of that indentation.  A literal one keeps its line ends; a
folded one joins lines that begin without a blank.
-/

namespace Logbook

namespace Yaml

/-- How the line ends behind a block scalar are kept. -/
inductive Chomping where
  /-- None of them. -/
  | strip
  /-- The first. -/
  | clip
  /-- All. -/
  | keep
  deriving DecidableEq

/-- The chomping that an indicator asks for. -/
def chomping? (c : Char) : Option Chomping :=
  if c == '-' then some .strip else if c == '+' then some .keep else none

/-- The indicators in the head of a block scalar, in either order: chomping, and the
indentation of the text relative to the block around it. -/
def blockHeader? (input : List Glyph) : Option (Chomping × Option Nat × List Glyph) :=
  let chomping (input : List Glyph) : Option Chomping × List Glyph :=
    match input with
    | glyph :: rest => match chomping? glyph.char with
      | some found => (some found, rest)
      | none => (none, input)
    | [] => (none, input)
  let increment (input : List Glyph) : Option Nat × List Glyph :=
    match input with
    | glyph :: rest =>
        if glyph.char.isDigit then (some (glyph.char.toNat - '0'.toNat), rest) else (none, input)
    | [] => (none, input)
  let (first, input) := chomping input
  let (digit, input) := increment input
  let (second, input) := if first.isNone && digit.isSome then chomping input else (none, input)
  if digit == some 0 then none
  else some (((first.or second).getD .clip), digit, input)

/-- Skips the indentation of a line of a block scalar and the empty lines in front
of it: the line ends, in reverse, and the deepest column that was reached.  Without
a known indentation (zero) all spaces are skipped. -/
def blockBreaks (indent : Nat) :
    (breaks : List Char) → (deepest : Nat) → List Glyph → Option (List Char × Nat × List Glyph)
  | breaks, deepest, [] => some (breaks, deepest, [])
  | breaks, deepest, glyph :: rest =>
      let inIndent := indent == 0 || glyph.column < indent
      if inIndent && glyph.char == ' ' then blockBreaks indent breaks deepest rest
      else
        let deepest := max deepest glyph.column
        if inIndent && glyph.char == '\t' then none
        else if isBreak glyph.char then blockBreaks indent (glyph.char :: breaks) deepest rest
        else some (breaks, deepest, glyph :: rest)

/-- The lines of a block scalar.  `pending` is the line end of the last line and
`breaks` the line ends after it, in reverse; `wasBlank` tells that the last line
began with a blank. -/
def blockLines (literal : Bool) (indent : Nat) :
    Nat → (chars : List Char) → (pending : Option Char) → (breaks : List Char) → (wasBlank : Bool) →
      List Glyph → Option (List Char × Option Char × List Char × List Glyph)
  | 0, chars, pending, breaks, _, input => some (chars, pending, breaks, input)
  | fuel + 1, chars, pending, breaks, wasBlank, input =>
      match input with
      | [] => some (chars, pending, breaks, [])
      | glyph :: _ =>
          if glyph.column != indent then some (chars, pending, breaks, input)
          else
            let isBlank := isBlank glyph.char
            let joint : List Char :=
              if !literal && pending == some '\n' && !wasBlank && !isBlank then
                if breaks.isEmpty then [' '] else breaks
              else breaks ++ pending.toList
            let (line, rest) := spanChars (fun c => !isBreak c) input
            let chars := line.reverse ++ joint ++ chars
            match blockBreaks indent [] 0 (rest.drop 1) with
            | none => none
            | some (breaks, _, after) =>
                blockLines literal indent fuel chars (rest.head?.map Glyph.char) breaks isBlank
                  after

/-- A block scalar from behind its first indicator on. -/
def blockScalar? (literal : Bool) (blockIndent : Int) (input : List Glyph) :
    Option (String × List Glyph) := do
  let (chomping, increment, input) ← blockHeader? input
  let (_, input) := spanChars isBlank input
  let input :=
    if startsWith (· == '#') input then (spanChars (fun c => !isBreak c) input).2 else input
  if !atBreak input then none
  else
    let outer := blockIndent.toNat
    let given := (increment.map (outer + ·)).getD 0
    let (breaks, deepest, input) ← blockBreaks given [] 0 (input.drop 1)
    let indent := if given == 0 then max deepest (max (blockIndent + 1).toNat 1) else given
    let (chars, pending, breaks, rest) ←
      blockLines literal indent (input.length + 1) [] none breaks false input
    let tail := match chomping with
      | .strip => []
      | .clip => pending.toList
      | .keep => breaks ++ pending.toList
    some (String.ofList (tail ++ chars).reverse, rest)

end Yaml

end Logbook
