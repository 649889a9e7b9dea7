/-!
# Characters with their places

In a YAML document it matters where a character stands: indentation depends on its
column, and how far a key may reach on its line.  A `Glyph` is a character together
with its place.
-/

namespace Logbook

namespace Yaml

/-- A character and where it stands. -/
structure Glyph where
  /-- The character; a line feed stands for every line end but the two separators. -/
  char : Char
  /-- The number of line ends before it. -/
  line : Nat
  /-- The number of characters before it on its line. -/
  column : Nat
  /-- The number of bytes that the text before it takes. -/
  index : Nat

/-- Whether a character may occur in a document. -/
def isAllowed (c : Char) : Bool :=
  let code := c.toNat
  code == 0x09 || code == 0x0A || code == 0x0D || (0x20 ≤ code && code ≤ 0x7E) || code == 0x85
    || (0xA0 ≤ code && code ≤ 0xD7FF) || (0xE000 ≤ code && code ≤ 0xFFFD)
    || 0x10000 ≤ code

/-- The line and the paragraph separator, the line ends that are kept as they are. -/
def isSeparator (c : Char) : Bool := c == '\u2028' || c == '\u2029'

/-- Whether a character ends a line. -/
def isBreak (c : Char) : Bool := c == '\n' || isSeparator c

/-- Whether a character is a space or a tab. -/
def isBlank (c : Char) : Bool := c == ' ' || c == '\t'

/-- The characters of a text with their places, from the given place on. -/
def glyphsFrom (line column index : Nat) : List Char → List Glyph
  | [] => []
  | '\r' :: '\n' :: rest => ⟨'\n', line, column, index⟩ :: glyphsFrom (line + 1) 0 (index + 2) rest
  | c :: rest =>
      if c == '\r' || c == '\n' || c == '\u0085' then
        ⟨'\n', line, column, index⟩ :: glyphsFrom (line + 1) 0 (index + c.utf8Size) rest
      else if isSeparator c then
        ⟨c, line, column, index⟩ :: glyphsFrom (line + 1) 0 (index + c.utf8Size) rest
      else ⟨c, line, column, index⟩ :: glyphsFrom line (column + 1) (index + c.utf8Size) rest

/-- The characters of a document. -/
def glyphs (text : List Char) : List Glyph := glyphsFrom 0 0 0 text

/-- Whether a text starts with a character of a class. -/
def startsWith (test : Char → Bool) (input : List Glyph) : Bool :=
  (input.head?.map fun glyph => test glyph.char).getD false

/-- Whether a text starts with the given characters. -/
def startsWithText : List Char → List Glyph → Bool
  | [], _ => true
  | c :: text, glyph :: input => c == glyph.char && startsWithText text input
  | _ :: _, [] => false

/-- Whether a text is at its end, or at a character that ends a word. -/
def atBlank (input : List Glyph) : Bool :=
  input.isEmpty || startsWith (fun c => isBlank c || isBreak c) input

/-- Whether a text is at the end of a line. -/
def atBreak (input : List Glyph) : Bool := input.isEmpty || startsWith isBreak input

/-- Whether a line starts here with a marker between documents. -/
def atDocumentMarker (input : List Glyph) : Bool :=
  (input.head?.map fun glyph => glyph.column == 0).getD false
    && (startsWithText ['-', '-', '-'] input || startsWithText ['.', '.', '.'] input)
    && atBlank (input.drop 3)

/-- The characters of names of anchors and tag handles. -/
def isNameChar (c : Char) : Bool := c.isAlphanum || c == '_' || c == '-'

/-- The longest beginning of a text in a class, and what follows it. -/
def spanChars (test : Char → Bool) (input : List Glyph) : List Char × List Glyph :=
  ((input.takeWhile fun glyph => test glyph.char).map Glyph.char,
    input.dropWhile fun glyph => test glyph.char)

end Yaml

end Logbook
