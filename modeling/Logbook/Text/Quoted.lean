import Logbook.Text.Hidden

/-!
# Quoted texts in messages

A message that lists the columns of a table writes each between quotes, with quotes,
backslashes and characters that do not show escaped, so that it is clear what a name
is and where it ends.
-/

namespace Logbook

namespace Text

/-- The hexadecimal digits of a number. -/
def hexDigits (number : Nat) : List Char := Nat.toDigits 16 number

/-- The written form of one character between quotes. -/
def escape (c : Char) : List Char :=
  match c with
  | '"' => ['\\', '"']
  | '\\' => ['\\', '\\']
  | '\n' => ['\\', 'n']
  | '\r' => ['\\', 'r']
  | '\t' => ['\\', 't']
  | '\x00' => ['\\', '0']
  | c => if isHidden c then '\\' :: 'u' :: '\x7b' :: hexDigits c.toNat ++ ['\x7d'] else [c]

/-- A text between quotes. -/
def quote (text : String) : String :=
  String.ofList ('"' :: text.toList.flatMap escape ++ ['"'])

/-- A list of texts, each between quotes. -/
def quoteList (texts : List String) : String :=
  "[" ++ ", ".intercalate (texts.map quote) ++ "]"

end Text

end Logbook
