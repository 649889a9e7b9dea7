/-!
# White space

The characters with the Unicode property White_Space, which are cut off both ends
of a query and of each line of a metric log.
-/

namespace Logbook

namespace Text

/-- The code points with the property White_Space. -/
def blanks : List Nat :=
  [0x09, 0x0A, 0x0B, 0x0C, 0x0D, 0x20, 0x85, 0xA0, 0x1680, 0x2000, 0x2001, 0x2002, 0x2003, 0x2004,
    0x2005, 0x2006, 0x2007, 0x2008, 0x2009, 0x200A, 0x2028, 0x2029, 0x202F, 0x205F, 0x3000]

/-- Whether a character is white space. -/
def isBlank (c : Char) : Bool := blanks.contains c.toNat

/-- The text without white space at its end. -/
def trimEnd (text : List Char) : List Char := (text.reverse.dropWhile isBlank).reverse

/-- The text without white space at both ends. -/
def trim (text : List Char) : List Char := trimEnd (text.dropWhile isBlank)

/-- An ASCII letter in lower case; any other character as it is. -/
def lowerAscii (text : String) : String := String.ofList (text.toList.map Char.toLower)

/-- Whether two texts differ at most in the case of ASCII letters. -/
def sameIgnoringCase (left right : String) : Bool := lowerAscii left == lowerAscii right

/-- An ASCII letter in upper case; any other character as it is. -/
def upperAscii (text : String) : String := String.ofList (text.toList.map Char.toUpper)

end Text

end Logbook
