import Logbook.Yaml.Token.Block
import Logbook.Yaml.Token.Tag

/-!
# From characters to tokens

A `Scanner` keeps the indentation of the open blocks, so that the tokens show where
blocks begin and end, and remembers for each level of flow collections the last place
where a key without an indicator may have begun: only the colon behind it tells.
-/

namespace Logbook

namespace Yaml

/-- A place where a key without an indicator may have begun. -/
structure KeyPlace where
  /-- Whether there has to be a key, because of the indentation. -/
  required : Bool
  /-- The number of the token that begins there. -/
  slot : Nat
  /-- The line of the place. -/
  line : Nat
  /-- The column of the place. -/
  column : Nat
  /-- The number of bytes before the place. -/
  index : Nat

/-- What the scanner knows between two tokens. -/
structure Scanner where
  /-- The text that is left. -/
  input : List Glyph
  /-- The tokens so far. -/
  slots : Array Slot
  /-- The column of the innermost open block; -1 outside of all. -/
  indent : Int
  /-- The columns of the blocks around it. -/
  outerIndents : List Int
  /-- For the block context and each open flow collection, the innermost first, the
  last place where a key may have begun. -/
  keyPlaces : List (Option KeyPlace)
  /-- Whether a key without an indicator may begin here. -/
  keyAllowed : Bool

namespace Scanner

/-- The scanner at the start of a text. -/
def ofGlyphs (input : List Glyph) : Scanner := ⟨input, #[], -1, [], [none], true⟩

/-- Whether the scanner is inside a flow collection. -/
def inFlow (scanner : Scanner) : Bool := scanner.keyPlaces.length > 1

/-- The column of the text that is left. -/
def column (scanner : Scanner) : Nat := (scanner.input.head?.map Glyph.column).getD 0

/-- Adds a token. -/
def push (scanner : Scanner) (token : Token) : Scanner :=
  { scanner with slots := scanner.slots.push ⟨false, false, token⟩ }

/-- The scanner with the given text left. -/
def withInput (scanner : Scanner) (input : List Glyph) : Scanner := { scanner with input }

/-- Closes the blocks that are indented deeper than a column. -/
def unroll (column : Int) (scanner : Scanner) : Scanner :=
  if scanner.inFlow then scanner
  else go scanner.outerIndents.length scanner
where
  go : Nat → Scanner → Scanner
    | 0, scanner => scanner
    | fuel + 1, scanner =>
        if column < scanner.indent then
          let scanner := scanner.push .blockEnd
          go fuel
            { scanner with
              indent := scanner.outerIndents.head?.getD (-1)
              outerIndents := scanner.outerIndents.tail }
        else scanner

/-- Opens a block at a column that is deeper than the innermost one; tells whether
it did. -/
def roll (column : Nat) (scanner : Scanner) : Scanner × Bool :=
  if !scanner.inFlow && scanner.indent < column then
    ({ scanner with
      indent := column
      outerIndents := scanner.indent :: scanner.outerIndents }, true)
  else (scanner, false)

/-- Gives up the place of a key at this level; a required key cannot be given up. -/
def dropKeyPlace? (scanner : Scanner) : Option Scanner :=
  match scanner.keyPlaces with
  | some place :: places =>
      if place.required then none else some { scanner with keyPlaces := none :: places }
  | _ => some scanner

/-- Remembers that a key may begin here. -/
def saveKeyPlace? (scanner : Scanner) : Option Scanner :=
  match scanner.keyAllowed, scanner.input with
  | true, glyph :: _ => do
      let required := !scanner.inFlow && scanner.indent == glyph.column
      let scanner ← scanner.dropKeyPlace?
      let place : KeyPlace := ⟨required, scanner.slots.size, glyph.line, glyph.column, glyph.index⟩
      some { scanner with keyPlaces := some place :: scanner.keyPlaces.tail }
  | _, _ => some scanner

/-- How many bytes a key without an indicator may span. -/
def maxKeyLength : Nat := 1024

/-- Gives up the places of keys that would span lines or be too long. -/
def dropStaleKeyPlaces? (scanner : Scanner) : Option Scanner :=
  match scanner.input with
  | [] => some scanner
  | glyph :: _ => do
      let places ← scanner.keyPlaces.mapM fun place? =>
        match place? with
        | none => some none
        | some place =>
            if place.line < glyph.line || place.index + maxKeyLength < glyph.index then
              if place.required then none else some none
            else some (some place)
      some { scanner with keyPlaces := places }

end Scanner

/-! ## What stands between tokens -/

/-- A mark of the byte order, which takes up a column but means nothing. -/
def byteOrderMark : Char := '\ufeff'

/-- Skips spaces, comments and line ends, and a mark of the byte order at the start of
a line.  A tab counts as a space only where no block can begin; a new line in the
block context allows a key again. -/
def skipToToken (inFlow : Bool) : (keyAllowed inComment : Bool) → List Glyph → Bool × List Glyph
  | keyAllowed, _, [] => (keyAllowed, [])
  | keyAllowed, inComment, glyph :: rest =>
      if isBreak glyph.char then skipToToken inFlow (keyAllowed || !inFlow) false rest
      else if inComment then skipToToken inFlow keyAllowed true rest
      else if glyph.char == byteOrderMark && glyph.column == 0 then
        skipToToken inFlow keyAllowed false rest
      else if glyph.char == ' ' || (glyph.char == '\t' && (inFlow || !keyAllowed)) then
        skipToToken inFlow keyAllowed false rest
      else if glyph.char == '#' then skipToToken inFlow keyAllowed true rest
      else (keyAllowed, glyph :: rest)

/-! ## The scanner -/

namespace Scanner

/-- A bracket or brace that opens a flow collection. -/
def openFlow? (token : Token) (rest : List Glyph) (scanner : Scanner) : Option Scanner := do
  let scanner ← scanner.saveKeyPlace?
  let scanner := scanner.push token
  some { scanner with input := rest, keyPlaces := none :: scanner.keyPlaces, keyAllowed := true }

/-- A bracket or brace that closes a flow collection. -/
def closeFlow? (token : Token) (rest : List Glyph) (scanner : Scanner) : Option Scanner := do
  let scanner ← scanner.dropKeyPlace?
  let places := if scanner.inFlow then scanner.keyPlaces.tail else scanner.keyPlaces
  let scanner := scanner.push token
  some { scanner with input := rest, keyPlaces := places, keyAllowed := false }

/-- The comma of a flow collection. -/
def flowEntry? (rest : List Glyph) (scanner : Scanner) : Option Scanner := do
  let scanner ← scanner.dropKeyPlace?
  let scanner := scanner.push .flowEntry
  some { scanner with input := rest, keyAllowed := true }

/-- An indicator that opens a block unless one is open at its column. -/
def blockIndicator? (opening token : Token) (rest : List Glyph) (scanner : Scanner) :
    Option Scanner := do
  let scanner ←
    if scanner.inFlow then some scanner
    else if !scanner.keyAllowed then none
    else
      let (scanner, opened) := scanner.roll scanner.column
      some (if opened then scanner.push opening else scanner)
  let scanner ← scanner.dropKeyPlace?
  let scanner := scanner.push token
  some { scanner with input := rest, keyAllowed := token == .entry || !scanner.inFlow }

/-- The colon in front of a value.  It settles that a key began at the remembered
place, or else follows a key with an indicator or an empty one. -/
def value? (rest : List Glyph) (scanner : Scanner) : Option Scanner :=
  match scanner.keyPlaces with
  | some place :: places =>
      let (scanner, opened) := scanner.roll place.column
      let mark (slot : Slot) : Slot := { slot with isKey := true, opensMapping := opened }
      let scanner :=
        { scanner with
          slots := scanner.slots.modify place.slot mark
          keyPlaces := none :: places
          keyAllowed := false }
      some ((scanner.push .value).withInput rest)
  | _ => do
      let scanner ←
        if scanner.inFlow then some scanner
        else if !scanner.keyAllowed then none
        else
          let (scanner, opened) := scanner.roll scanner.column
          some (if opened then scanner.push .mappingStart else scanner)
      let scanner := scanner.push .value
      some { scanner with input := rest, keyAllowed := !scanner.inFlow }

/-- A token that belongs to a node and may begin a key. -/
def nodeToken? (scan : Scanner → Option (Token × List Glyph)) (scanner : Scanner) :
    Option Scanner := do
  let scanner ← scanner.saveKeyPlace?
  let (token, rest) ← scan scanner
  some (({ scanner with keyAllowed := false }.push token).withInput rest)

/-- A marker between documents or a directive, which ends all blocks. -/
def outside? (token : Token) (rest : List Glyph) (scanner : Scanner) : Option Scanner := do
  let scanner ← (scanner.unroll (-1)).dropKeyPlace?
  some (({ scanner with keyAllowed := false }.push token).withInput rest)

/-- A plain scalar. -/
def plain? (scanner : Scanner) : Option Scanner := do
  let scanner ← scanner.saveKeyPlace?
  let (text, newLine, rest) ←
    plainChars scanner.inFlow (scanner.indent + 1) false [] {} scanner.input
  some (({ scanner with keyAllowed := newLine }.push (.scalar text .plain)).withInput rest)

/-- A block scalar. -/
def block? (literal : Bool) (rest : List Glyph) (scanner : Scanner) : Option Scanner := do
  let scanner ← scanner.dropKeyPlace?
  let (text, rest) ← blockScalar? literal scanner.indent rest
  let style : ScalarStyle := if literal then .literal else .folded
  some (({ scanner with keyAllowed := true }.push (.scalar text style)).withInput rest)

/-- Whether a plain scalar can begin with a character. -/
def startsPlain (inFlow : Bool) (c : Char) (rest : List Glyph) : Bool :=
  (!isBlank c && !isBreak c && !("-?:,[]\x7b\x7d#&*!|>'\"%@`".toList.contains c))
    || (c == '-' && !startsWith isBlank rest)
    || (!inFlow && (c == '?' || c == ':') && !atBlank rest)

/-- Reads the token that begins here. -/
def token? (glyph : Glyph) (rest : List Glyph) (scanner : Scanner) : Option Scanner :=
  let c := glyph.char
  let indicator := scanner.inFlow || atBlank rest
  if glyph.column == 0 && c == '%' then
    (directive? rest).bind fun (token, rest) => scanner.outside? token rest
  else if atDocumentMarker (glyph :: rest) then
    scanner.outside? (if c == '-' then .documentStart else .documentEnd) (rest.drop 2)
  else if c == '[' then scanner.openFlow? .flowSequenceStart rest
  else if c == '\x7b' then scanner.openFlow? .flowMappingStart rest
  else if c == ']' then scanner.closeFlow? .flowSequenceEnd rest
  else if c == '\x7d' then scanner.closeFlow? .flowMappingEnd rest
  else if c == ',' then scanner.flowEntry? rest
  else if c == '-' && atBlank rest then scanner.blockIndicator? .sequenceStart .entry rest
  else if c == '?' && indicator then scanner.blockIndicator? .mappingStart .key rest
  else if c == ':' && indicator then scanner.value? rest
  else if c == '*' then
    scanner.nodeToken? fun _ => (name? rest).map fun (name, rest) => (.alias name, rest)
  else if c == '&' then
    scanner.nodeToken? fun _ => (name? rest).map fun (name, rest) => (.anchor name, rest)
  else if c == '!' then scanner.nodeToken? fun scanner => tag? scanner.inFlow rest
  else if c == '|' && !scanner.inFlow then scanner.block? true rest
  else if c == '>' && !scanner.inFlow then scanner.block? false rest
  else if c == '\'' || c == '"' then
    scanner.nodeToken? fun _ =>
      (quotedChars (c == '\'') .text [] {} rest).map fun (text, rest) =>
        (.scalar text .quoted, rest)
  else if startsPlain scanner.inFlow c rest then scanner.plain?
  else none

/-- Reads tokens up to the end of the text. -/
def run? : Nat → Scanner → Option Scanner
  | 0, _ => none
  | fuel + 1, scanner => do
      let (keyAllowed, input) := skipToToken scanner.inFlow scanner.keyAllowed false scanner.input
      let scanner ← { scanner with keyAllowed, input }.dropStaleKeyPlaces?
      match input with
      | [] => (scanner.unroll (-1)).dropKeyPlace?
      | glyph :: rest => (scanner.unroll glyph.column).token? glyph rest >>= run? fuel

end Scanner

/-- The tokens of a document; `none` if the text is not made of tokens. -/
def tokens? (text : String) : Option (List Token) :=
  let chars := text.toList
  if !chars.all isAllowed then none
  else
    let input := glyphs chars
    ((Scanner.ofGlyphs input).run? (input.length + 1)).map fun scanner =>
      scanner.slots.toList.flatMap Slot.tokens

end Yaml

end Logbook
