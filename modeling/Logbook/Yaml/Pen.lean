import Logbook.Yaml.Style

/-!
# A pen for block YAML

A `Pen` holds the text that has been written and what decides whether a space or a
new line has to come next.  Indentation and the indicators of blocks leave a line
`fresh`, so that a block can go on behind them on the same line, as in `- - a`.
-/

namespace Logbook

namespace Yaml

/-- A text in the making. -/
structure Pen where
  /-- The characters so far, the last one in front. -/
  written : List Char := []
  /-- The column behind the last character. -/
  column : Nat := 0
  /-- Whether an indicator may follow without a space. -/
  spaced : Bool := true
  /-- Whether the line holds nothing but indentation and indicators of blocks. -/
  fresh : Bool := true

namespace Pen

/-- The text so far. -/
def text (pen : Pen) : List Char := pen.written.reverse

/-- Writes characters within a line. -/
def put (chars : List Char) (pen : Pen) : Pen :=
  { pen with written := chars.reverse ++ pen.written, column := pen.column + chars.length }

/-- Writes a character that ends the line. -/
def endLine (c : Char) (pen : Pen) : Pen :=
  { pen with written := c :: pen.written, column := 0, fresh := true }

/-- Goes to a column of a fresh line. -/
def goTo (column : Nat) (pen : Pen) : Pen :=
  let pen :=
    if !pen.fresh || column < pen.column || (column == pen.column && !pen.spaced) then
      pen.endLine '\n'
    else pen
  let pen := pen.put (List.replicate (column - pen.column) ' ')
  { pen with spaced := true, fresh := true }

/-- Writes a space unless there is one. -/
def space (pen : Pen) : Pen := if pen.spaced then pen else pen.put [' ']

/-- Writes something that takes up its part of a line. -/
def word (chars : List Char) (pen : Pen) : Pen :=
  { pen.space.put chars with spaced := false, fresh := false }

/-- Writes something directly behind what stands there. -/
def attach (chars : List Char) (pen : Pen) : Pen :=
  { pen.put chars with spaced := false, fresh := false }

/-- Writes an indicator of a block, behind which the line is as fresh as before. -/
def blockIndicator (c : Char) (pen : Pen) : Pen := { pen.space.put [c] with spaced := false }

/-! ## Tags -/

/-- A hexadecimal number in capitals of at least so many digits. -/
def capitalHex (width number : Nat) : List Char :=
  let digits := (Nat.toDigits 16 number).map Char.toUpper
  List.replicate (width - digits.length) '0' ++ digits

/-- Whether a character of a tag stands for itself. -/
def isTagChar (c : Char) : Bool := isNameChar c || ";/?:@&=+$,.~*'()[]".toList.contains c

/-- The name of a tag with escapes for all other characters. -/
def tagChars (name : String) : List Char :=
  name.toList.flatMap fun c =>
    if isTagChar c then [c]
    else (octets (String.singleton c)).flatMap fun octet => '%' :: capitalHex 2 octet.toNat

/-- The full text of a tag of the application. -/
def fullTag (name : String) : String := if name.toList.head? == some '!' then name else "!" ++ name

/-- Writes a tag of the application. -/
def tag (name : String) (pen : Pen) : Pen :=
  let full := fullTag name
  if full == "!" then ((pen.word ['!', '<']).attach (tagChars full)).attach ['>']
  else pen.word ('!' :: tagChars (String.ofList (full.toList.drop 1)))

/-! ## Texts -/

/-- A character between double quotes. -/
def doubleQuotedChar (c : Char) : List Char :=
  let named := [('\x00', '0'), ('\x07', 'a'), ('\x08', 'b'), ('\t', 't'), ('\n', 'n'),
    ('\x0b', 'v'), ('\x0c', 'f'), ('\r', 'r'), ('\x1b', 'e'), ('"', '"'), ('\\', '\\'),
    ('\u0085', 'N'), ('\u00a0', '_'), ('\u2028', 'L'), ('\u2029', 'P')]
  if isPrintable c && !endsLine c && c != '"' && c != '\\' then [c]
  else match named.lookup c with
    | some letter => ['\\', letter]
    | none =>
        let code := c.toNat
        if code < 0x100 then '\\' :: 'x' :: capitalHex 2 code
        else if code < 0x10000 then '\\' :: 'u' :: capitalHex 4 code
        else '\\' :: 'U' :: capitalHex 8 code

/-- Writes a text between double quotes. -/
def double (text : List Char) (pen : Pen) : Pen :=
  pen.word ('"' :: text.flatMap doubleQuotedChar ++ ['"'])

/-- Writes the characters of a text between single quotes and the quote behind them.
What follows the end of a line is indented, the quote too. -/
def singleChars (indent : Nat) : (newLine : Bool) → List Char → Pen → Pen
  | newLine, [], pen => (if newLine then pen.goTo indent else pen).attach ['\'']
  | newLine, c :: rest, pen =>
      if endsLine c then singleChars indent true rest (pen.endLine c)
      else
        let pen := if newLine then pen.goTo indent else pen
        singleChars indent false rest (pen.attach (if c == '\'' then ['\'', '\''] else [c]))

/-- Writes a text between single quotes. -/
def single (indent : Nat) (text : List Char) (pen : Pen) : Pen :=
  singleChars indent false text (pen.word ['\''])

/-- What the head of a literal block says: how the text is indented, if it starts with
white space, and whether it ends with no line end, one or several. -/
def literalHints (text : List Char) : List Char :=
  let indent := match text.head? with
    | some c => if c == ' ' || endsLine c then ['2'] else []
    | none => []
  let chomping := match text.reverse with
    | last :: rest =>
        if !endsLine last then ['-']
        else if (rest.head?.map endsLine).getD true then ['+']
        else []
    | [] => ['-']
  indent ++ chomping

/-- Writes the lines of a literal block. -/
def literalChars (indent : Nat) : (newLine : Bool) → List Char → Pen → Pen
  | _, [], pen => pen
  | newLine, c :: rest, pen =>
      if endsLine c then literalChars indent true rest (pen.endLine c)
      else
        let pen := if newLine then pen.goTo indent else pen
        literalChars indent false rest { pen.put [c] with fresh := false }

/-- Writes a text as a literal block. -/
def literal (indent : Nat) (text : List Char) (pen : Pen) : Pen :=
  let pen := (pen.word ('|' :: literalHints text)).endLine '\n'
  literalChars indent true text { pen with spaced := true }

end Pen

end Yaml

end Logbook
