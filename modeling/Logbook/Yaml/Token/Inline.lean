import Logbook.Yaml.Token.Basic

/-!
# Scalars without quotes and between quotes

Such a scalar may run over several lines.  The white space inside it is then folded: a
single line end becomes a space, and of several all but the first stay.
-/

namespace Logbook

namespace Yaml

/-- White space inside a scalar, before it is known whether the scalar goes on. -/
structure Gap where
  /-- The blanks since the last character, in reverse, as long as no line ended. -/
  blanks : List Char := []
  /-- The first line end. -/
  firstBreak : Option Char := none
  /-- The line ends after it, in reverse. -/
  laterBreaks : List Char := []
  /-- Whether a line has ended. -/
  newLine : Bool := false

/-- A gap as it shows in the scalar, in reverse: blanks within a line as they are, a
single line end as a space, several as all but the first. -/
def Gap.folded (gap : Gap) : List Char :=
  if !gap.newLine then gap.blanks
  else match gap.firstBreak with
    | some '\n' => if gap.laterBreaks.isEmpty then [' '] else gap.laterBreaks
    | some separator => gap.laterBreaks ++ [separator]
    | none => gap.laterBreaks

/-- Adds a blank to a gap. -/
def Gap.blank (gap : Gap) (c : Char) : Gap :=
  if gap.newLine then gap else { gap with blanks := c :: gap.blanks }

/-- Adds a line end to a gap. -/
def Gap.lineEnd (gap : Gap) (c : Char) : Gap :=
  if gap.newLine then { gap with laterBreaks := c :: gap.laterBreaks }
  else { firstBreak := some c, newLine := true }

/-- Whether a character ends a plain scalar inside a flow collection. -/
def isFlowIndicator (c : Char) : Bool :=
  c == ',' || c == '[' || c == ']' || c == '\x7b' || c == '\x7d'

/-- Whether a plain scalar ends before a character because of what follows that. -/
def endsPlain (inFlow : Bool) (c : Char) (rest : List Glyph) : Bool :=
  (c == ':' && atBlank rest) || (inFlow && isFlowIndicator c)

/-- The rest of a plain scalar: its characters, whether the last gap ended a line,
and what is left.  `inWord` tells that the previous character belongs to it. -/
def plainChars (inFlow : Bool) (indent : Int) :
    (inWord : Bool) → (chars : List Char) → Gap → List Glyph → Option (String × Bool × List Glyph)
  | _, chars, gap, [] => some (String.ofList chars.reverse, gap.newLine, [])
  | inWord, chars, gap, glyph :: rest =>
      let c := glyph.char
      let stop := some (String.ofList chars.reverse, gap.newLine, glyph :: rest)
      if isBlank c then
        if gap.newLine && c == '\t' && (glyph.column : Int) < indent then none
        else plainChars inFlow indent false chars (gap.blank c) rest
      else if isBreak c then plainChars inFlow indent false chars (gap.lineEnd c) rest
      else if !inWord && ((gap.newLine && !inFlow && (glyph.column : Int) < indent)
          || atDocumentMarker (glyph :: rest) || c == '#') then stop
      else if inFlow && c == ':'
          && startsWith (fun next => next == '?' || isFlowIndicator next) rest then none
      else if endsPlain inFlow c rest then stop
      else plainChars inFlow indent true (c :: (gap.folded ++ chars)) {} rest

/-- What an escaped character stands for, where it takes no digits. -/
def simpleEscape? (c : Char) : Option Char :=
  [('0', '\x00'), ('a', '\x07'), ('b', '\x08'), ('t', '\t'), ('\t', '\t'), ('n', '\n'),
    ('v', '\x0b'), ('f', '\x0c'), ('r', '\r'), ('e', '\x1b'),
    (' ', ' '), ('"', '"'), ('/', '/'), ('\\', '\\'),
    ('N', '\u0085'), ('_', '\u00a0'), ('L', '\u2028'), ('P', '\u2029')].lookup c

/-- How many hexadecimal digits an escape takes. -/
def escapeDigits? (c : Char) : Option Nat := [('x', 2), ('u', 4), ('U', 8)].lookup c

/-- The value of a hexadecimal digit. -/
def hexDigit? (c : Char) : Option Nat :=
  if c.isDigit then some (c.toNat - '0'.toNat)
  else if 'a' ≤ c && c ≤ 'f' then some (c.toNat - 'a'.toNat + 10)
  else if 'A' ≤ c && c ≤ 'F' then some (c.toNat - 'A'.toNat + 10)
  else none

/-- What the scanner of a quoted scalar is in the middle of. -/
inductive QuoteState where
  /-- The text of the scalar. -/
  | text
  /-- A backslash has been read. -/
  | escape
  /-- So many hexadecimal digits of a character are still to come. -/
  | digits (count value : Nat)
  /-- A quote has been read that ends the scalar unless another follows. -/
  | quote

/-- The rest of a quoted scalar and what is left behind its quote. -/
def quotedChars (single : Bool) :
    QuoteState → (chars : List Char) → Gap → List Glyph → Option (String × List Glyph)
  | state, chars, gap, [] =>
      match state with
      | .quote => some (String.ofList (gap.folded ++ chars).reverse, [])
      | _ => none
  | state, chars, gap, glyph :: rest =>
      let c := glyph.char
      match state with
      | .escape =>
          if isBreak c then quotedChars single .text chars { newLine := true } rest
          else match escapeDigits? c with
            | some count => quotedChars single (.digits count 0) chars {} rest
            | none => (simpleEscape? c).bind fun c => quotedChars single .text (c :: chars) {} rest
      | .digits count value =>
          (hexDigit? c).bind fun digit =>
            let value := 16 * value + digit
            if 1 < count then quotedChars single (.digits (count - 1) value) chars {} rest
            else if value.isValidChar then
              quotedChars single .text (Char.ofNat value :: chars) {} rest
            else none
      | .quote =>
          if c == '\'' then quotedChars single .text ('\'' :: chars) {} rest
          else some (String.ofList chars.reverse, glyph :: rest)
      | .text =>
          if isBlank c then quotedChars single .text chars (gap.blank c) rest
          else if isBreak c then quotedChars single .text chars (gap.lineEnd c) rest
          else if c == '"' && !single then some (String.ofList (gap.folded ++ chars).reverse, rest)
          else if atDocumentMarker (glyph :: rest) then none
          else if c == '\'' && single then quotedChars single .quote (gap.folded ++ chars) {} rest
          else if c == '\\' && !single then quotedChars single .escape (gap.folded ++ chars) {} rest
          else quotedChars single .text (c :: (gap.folded ++ chars)) {} rest

end Yaml

end Logbook
