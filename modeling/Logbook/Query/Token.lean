import Logbook.Query.Predicate
import Logbook.Text.Blank
import Logbook.Text.Quoted

/-!
# Tokens of the query language

A query is a sequence of keys, comparisons, literals and connectives.  A key is a
dotted sequence of words of ASCII letters, digits and underscores; a literal is a
number, a truth value in any case, a text between single or double quotes, or a
list of literals between brackets.  White space separates tokens.

Each function here takes the text that is left and gives what it has read and what
is left then.  A fault names the text from where it occurred on, so positions are
computed in one place, from lengths in bytes.
-/

namespace Logbook

namespace Query

/-- What a token is. -/
inductive TokenKind where
  /-- The key of a field. -/
  | key (text : String)
  /-- A literal that is not a list. -/
  | scalar (value : Value)
  /-- A list of literals. -/
  | list (values : List Value)
  /-- A comparison. -/
  | comparison (sign : Comparison)
  /-- The word `in`. -/
  | membership
  /-- The sign of conjunction. -/
  | conjunction
  /-- The sign of disjunction. -/
  | disjunction
  /-- The sign of negation. -/
  | negation
  /-- An opening parenthesis. -/
  | opening
  /-- A closing parenthesis. -/
  | closing

/-- A token as messages call it. -/
def TokenKind.describe : TokenKind → String
  | key text => "key '" ++ text ++ "'"
  | scalar value => "scalar '" ++ value.render ++ "'"
  | list _ => "list literal"
  | comparison sign => "'" ++ sign.symbol ++ "'"
  | membership => "'in'"
  | conjunction => "'&'"
  | disjunction => "'|'"
  | negation => "'~'"
  | opening => "'('"
  | closing => "')'"

/-- A token and the byte at which it starts. -/
structure Token where
  /-- What the token is. -/
  kind : TokenKind
  /-- The number of bytes before it. -/
  offset : Nat

/-- Why a text is not a sequence of tokens. -/
inductive LexicalCause where
  /-- No token starts with this character. -/
  | illegalCharacter
  /-- A text has no closing quote. -/
  | unterminatedText
  /-- A list has no closing bracket. -/
  | unterminatedList
  /-- A list ends with a comma. -/
  | trailingComma
  /-- An integer does not fit 64 bits. -/
  | invalidNumber (text : String)
  /-- A list item is a key or a keyword. -/
  | nonScalarItem
  /-- A key has an empty segment. -/
  | emptySegment
  deriving DecidableEq

/-- A lexical fault and the text from where it occurred on. -/
structure Fault where
  /-- What is wrong. -/
  cause : LexicalCause
  /-- The text that is left there. -/
  rest : List Char

/-- The length of a text in bytes. -/
def byteLength (text : List Char) : Nat :=
  text.foldr (fun c bytes => c.utf8Size + bytes) 0

/-- What a scanner has read, and the text that is left. -/
abbrev Scan (α : Type) := Except Fault (α × List Char)

/-- A fault at the given text. -/
def fail {α : Type} (cause : LexicalCause) (rest : List Char) : Scan α := .error ⟨cause, rest⟩

/-- The characters of words. -/
def isWordChar (c : Char) : Bool := c.isAlphanum || c == '_'

/-- The rest of a key: word characters, and dots that a word character follows. -/
def keyChars : List Char → List Char × List Char
  | [] => ([], [])
  | c :: rest =>
      if isWordChar c || (c == '.' && (rest.head?.map isWordChar).getD false) then
        let (word, rest) := keyChars rest
        (c :: word, rest)
      else ([], c :: rest)

/-- What a word stands for. -/
def wordKind (word : String) : TokenKind :=
  if word == "in" then .membership
  else if Text.sameIgnoringCase word "true" then .scalar (.bool true)
  else if Text.sameIgnoringCase word "false" then .scalar (.bool false)
  else .key word

/-- A key, a truth value or the word `in`. -/
def word (input : List Char) : Scan TokenKind :=
  if (input.head?.map isWordChar).getD false then
    let (word, rest) := keyChars input
    .ok (wordKind (String.ofList word), rest)
  else fail .emptySegment input

/-- Whether the digits at the start of a text run on into a word. -/
def digitsStartWord (input : List Char) : Bool :=
  match input.dropWhile Char.isDigit with
  | c :: _ => c.isAlpha || c == '_'
  | [] => false

/-- The sign of a number, if it has one. -/
def sign : List Char → List Char × List Char
  | '+' :: rest => (['+'], rest)
  | '-' :: rest => (['-'], rest)
  | rest => ([], rest)

/-- A number: an integer of 64 bits, or with a point a double. -/
def number (input : List Char) : Scan Value :=
  let (sign, afterSign) := sign input
  let whole := afterSign.takeWhile Char.isDigit
  let afterWhole := afterSign.drop whole.length
  let negative := sign == ['-']
  match afterWhole with
  | '.' :: afterPoint =>
      let fraction := afterPoint.takeWhile Char.isDigit
      if whole.isEmpty && fraction.isEmpty then fail .illegalCharacter input
      else
        let digits := Decimal.ofDigits (whole ++ fraction)
        .ok (.float (Binary64.ofDecimal negative digits (-(fraction.length : Int))),
          afterPoint.drop fraction.length)
  | _ =>
      if whole.isEmpty then fail .illegalCharacter input
      else
        let magnitude := Decimal.ofDigits whole
        let number : Int := if negative then -(magnitude : Int) else magnitude
        match Integer.int64? number with
        | some integer => .ok (.int integer, afterWhole)
        | none => fail (.invalidNumber (String.ofList (sign ++ whole))) input

/-- A text between two quotes of the same kind, with no escapes. -/
def text (quote : Char) (input start : List Char) : Scan String :=
  let content := input.takeWhile (· != quote)
  match input.drop content.length with
  | _ :: rest => .ok (String.ofList content, rest)
  | [] => fail .unterminatedText start

/-- An item of a list. -/
def listItem (input : List Char) : Scan Value :=
  match input with
  | [] => fail .illegalCharacter input
  | c :: rest =>
      if c == '\'' || c == '"' then (text c rest input).map fun (text, rest) => (.str text, rest)
      else if c == '+' || c == '-' || c == '.' || c.isDigit then number input
      else if c.isAlpha then
        match word input with
        | .ok (.scalar value, rest) => .ok (value, rest)
        | .ok _ => fail .nonScalarItem input
        | .error fault => .error fault
      else fail .illegalCharacter input

/-- The items of a list up to its closing bracket.  Spaces and tabs may stand
between them, line ends may not. -/
def listItems (start : List Char) :
    Nat → (expectItem : Bool) → List Value → List Char → Scan (List Value)
  | 0, _, _, _ => fail .unterminatedList start
  | fuel + 1, expectItem, items, input =>
      match input with
      | [] => fail .unterminatedList start
      | c :: rest =>
          if c == ' ' || c == '\t' then listItems start fuel expectItem items rest
          else if c == ']' then
            if expectItem && !items.isEmpty then fail .trailingComma input
            else .ok (items, rest)
          else if c == ',' && !expectItem then listItems start fuel true items rest
          else if expectItem then
            match listItem input with
            | .ok (item, rest) => listItems start fuel false (items ++ [item]) rest
            | .error fault => .error fault
          else fail .illegalCharacter input

/-- A comparison of one or two characters. -/
def comparison : List Char → Scan TokenKind
  | '=' :: '=' :: rest => .ok (.comparison .equal, rest)
  | '!' :: '=' :: rest => .ok (.comparison .notEqual, rest)
  | '<' :: '=' :: rest => .ok (.comparison .lessEqual, rest)
  | '>' :: '=' :: rest => .ok (.comparison .greaterEqual, rest)
  | '<' :: rest => .ok (.comparison .less, rest)
  | '>' :: rest => .ok (.comparison .greater, rest)
  | input => fail .illegalCharacter input

/-- The token that starts with the given character. -/
def tokenFrom (c : Char) (rest : List Char) : Scan TokenKind :=
  let input := c :: rest
  if c == '&' then .ok (.conjunction, rest)
  else if c == '|' then .ok (.disjunction, rest)
  else if c == '~' then .ok (.negation, rest)
  else if c == '(' then .ok (.opening, rest)
  else if c == ')' then .ok (.closing, rest)
  else if c == '=' || c == '!' || c == '<' || c == '>' then comparison input
  else if c == '[' then
    (listItems input (rest.length + 1) true [] rest).map fun (items, rest) => (.list items, rest)
  else if c == '\'' || c == '"' then
    (text c rest input).map fun (text, rest) => (.scalar (.str text), rest)
  else if c == '+' || c == '-' || c == '.' then
    (number input).map fun (value, rest) => (.scalar value, rest)
  else if c.isDigit then
    if digitsStartWord input then word input
    else (number input).map fun (value, rest) => (.scalar value, rest)
  else if c.isAlpha || c == '_' then word input
  else fail .illegalCharacter input

/-- The white space between tokens. -/
def isSeparator (c : Char) : Bool := c == ' ' || c == '\t' || c == '\n' || c == '\r'

/-- The tokens of a text, each with the text from its start on.  Every step takes
a character, so the length is fuel enough. -/
def lexemes : Nat → List Char → Except Fault (List (TokenKind × List Char))
  | 0, _ => .ok []
  | fuel + 1, input =>
      match input with
      | [] => .ok []
      | c :: rest =>
          if isSeparator c then lexemes fuel rest
          else
            match tokenFrom c rest with
            | .error fault => .error fault
            | .ok (kind, rest) => (lexemes fuel rest).map ((kind, input) :: ·)

end Query

end Logbook
