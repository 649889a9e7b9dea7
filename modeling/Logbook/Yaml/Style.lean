import Logbook.Yaml.Glyph
import Logbook.Yaml.Scalar

/-!
# Styles of texts in YAML

A text is written without quotes if that reads back as the same text, else between
single quotes, and between double quotes if it has characters that need an escape.
A text with line feeds becomes a literal block, except in front of a colon, where it
has to stay on one line.
-/

namespace Logbook

namespace Yaml

/-! ## Characters -/

/-- Whether a character shows as itself. -/
def isPrintable (c : Char) : Bool :=
  let code := c.toNat
  code == 0x0A || (0x20 ≤ code && code ≤ 0x7E) || (0xA0 ≤ code && code ≤ 0xD7FF)
    || (0xE000 ≤ code && code ≤ 0xFFFD && code != 0xFEFF) || 0x10000 ≤ code

/-- Whether a character ends a line in some style. -/
def endsLine (c : Char) : Bool := isBreak c || c == '\r' || c == '\u0085'

/-- Whether a character, given its neighbours, could be taken for an indicator. -/
def isIndicator (before after : Option Char) (c : Char) : Bool :=
  let gapBehind := (after.map fun c => isBlank c || endsLine c).getD true
  let gapBefore := (before.map fun c => isBlank c || endsLine c).getD true
  match before with
  | none =>
      "#,[]\x7b\x7d&*!|>'\"%@`".toList.contains c
        || ((c == '?' || c == ':' || c == '-') && gapBehind)
  | some _ => (c == ':' && gapBehind) || (c == '#' && gapBefore)

/-- Whether some character of a text could be taken for an indicator. -/
def hasIndicator : (before : Option Char) → List Char → Bool
  | _, [] => false
  | before, c :: rest => isIndicator before rest.head? c || hasIndicator (some c) rest

/-- Whether a text has a space directly in front of the end of a line. -/
def spaceBeforeBreak : List Char → Bool
  | ' ' :: c :: rest => endsLine c || spaceBeforeBreak (c :: rest)
  | _ :: rest => spaceBeforeBreak rest
  | [] => false

/-- Whether the end of a line is directly in front of a space. -/
def breakBeforeSpace : List Char → Bool
  | c :: ' ' :: rest => endsLine c || breakBeforeSpace (' ' :: rest)
  | _ :: rest => breakBeforeSpace rest
  | [] => false

/-! ## What a style allows -/

/-- Whether a text has no form but the one between double quotes. -/
def needsEscapes (text : List Char) : Bool := spaceBeforeBreak text || !text.all isPrintable

/-- Whether a text may stand between single quotes. -/
def allowsSingle (text : List Char) : Bool := !needsEscapes text && !breakBeforeSpace text

/-- Whether a text may be a literal block. -/
def allowsLiteral (text : List Char) : Bool := !needsEscapes text && text.getLast? != some ' '

/-- Whether a text may stand without quotes as far as its characters go. -/
def allowsPlain (text : List Char) : Bool :=
  let atEnd (c : Option Char) := (c.map fun c => c == ' ' || endsLine c).getD false
  !needsEscapes text && !text.any endsLine && !atEnd text.head? && !atEnd text.getLast?
    && !hasIndicator none text
    && !(["---".toList, "...".toList].contains (text.take 3))

/-- Whether a text without quotes would be read as something else. -/
def isAmbiguous (text : String) : Bool :=
  isPaddedDigits text.toList ||
    match plain? text with
    | some (.text _) => false
    | _ => true

/-- How a text is written. -/
inductive TextStyle where
  /-- Without quotes. -/
  | plain
  /-- Between single quotes. -/
  | single
  /-- Between double quotes. -/
  | double
  /-- As a block whose line ends are kept. -/
  | literal
  deriving DecidableEq

/-- The style of a text, which may be a key in front of a colon. -/
def textStyle (isKey : Bool) (text : String) : TextStyle :=
  let chars := text.toList
  if isKey && chars.any endsLine then .double
  else if chars.contains '\n' then if allowsLiteral chars then .literal else .double
  else if !isAmbiguous text && allowsPlain chars then .plain
  else if allowsSingle chars then .single
  else .double

end Yaml

end Logbook
