import Logbook.Binary64.Text
import Logbook.Yaml.Token.Inline

/-!
# Anchors, tags and directives

An anchor names a node, and an alias repeats the node of that name.  A tag says of
which type a node is, by a handle and a suffix; directives in front of a document say
its version and declare handles.
-/

namespace Logbook

namespace Yaml

/-- The name of an anchor or an alias, which a blank or an indicator has to follow. -/
def name? (input : List Glyph) : Option (String × List Glyph) :=
  let (name, rest) := spanChars isNameChar input
  if name.isEmpty then none
  else if atBlank rest || startsWith (fun c => "?:,]\x7d%@`".toList.contains c) rest then
    some (String.ofList name, rest)
  else none

/-- The characters of tags that stand for themselves. -/
def isUriChar (verbatim : Bool) (c : Char) : Bool :=
  isNameChar c || ";/?:@&=+$.!~*'()".toList.contains c
    || (verbatim && (c == ',' || c == '[' || c == ']'))

/-- How many bytes the encoding of a character takes that begins with a byte. -/
def encodedLength? (first : UInt8) : Option Nat :=
  if first < 0x80 then some 1
  else if 0xC0 ≤ first && first < 0xE0 then some 2
  else if 0xE0 ≤ first && first < 0xF0 then some 3
  else if 0xF0 ≤ first && first < 0xF8 then some 4
  else none

/-- How many bytes of a character are missing after one more, where so many were
missing before. -/
def missingAfter? (missing : Nat) (octet : UInt8) : Option Nat :=
  if missing == 0 then (encodedLength? octet).map (· - 1)
  else if 0x80 ≤ octet && octet < 0xC0 then some (missing - 1)
  else none

/-- The bytes of a tag: characters that stand for themselves, and escapes, which have
to spell whole characters. -/
def uriOctets (verbatim : Bool) : (missing : Nat) → List Glyph → Option (Octets × List Glyph)
  | missing, ⟨'%', _, _, _⟩ :: high :: low :: rest => do
      let high ← hexDigit? high.char
      let low ← hexDigit? low.char
      let octet := UInt8.ofNat (16 * high + low)
      let (octets, rest) ← uriOctets verbatim (← missingAfter? missing octet) rest
      some (octet :: octets, rest)
  | missing, glyph :: rest =>
      if missing != 0 || glyph.char == '%' then none
      else if isUriChar verbatim glyph.char then
        (uriOctets verbatim 0 rest).map fun (octets, rest) => (glyph.char.toUInt8 :: octets, rest)
      else some ([], glyph :: rest)
  | missing, [] => if missing == 0 then some ([], []) else none

/-- A tag ends before a zero byte. -/
def untilZero (octets : Octets) : Octets := octets.takeWhile (· != 0)

/-- The bytes of a tag; there has to be one. -/
def uri? (verbatim : Bool) (input : List Glyph) : Option (Octets × List Glyph) := do
  let (octets, rest) ← uriOctets verbatim 0 input
  if octets.isEmpty then none else some (untilZero octets, rest)

/-- A tag from behind its exclamation mark on, as a handle and a suffix. -/
def tagParts? (input : List Glyph) : Option (String × Octets × List Glyph) :=
  if startsWith (· == '<') input then do
    let (suffix, rest) ← uri? true (input.drop 1)
    if startsWith (· == '>') rest then some ("", suffix, rest.drop 1) else none
  else
    let (name, rest) := spanChars isNameChar input
    if startsWith (· == '!') rest then do
      let (suffix, rest) ← uri? false (rest.drop 1)
      some ("!" ++ String.ofList name ++ "!", suffix, rest)
    else do
      let (more, rest) ← uriOctets false 0 rest
      let suffix := untilZero (octets (String.ofList name) ++ more)
      if suffix.isEmpty then some ("", octets "!", rest) else some ("!", suffix, rest)

/-- A tag, which white space has to follow, or a comma in a flow collection. -/
def tag? (inFlow : Bool) (input : List Glyph) : Option (Token × List Glyph) := do
  let (handle, suffix, rest) ← tagParts? input
  if (inFlow && startsWith (· == ',') rest) || atBlank rest then some (.tag handle suffix, rest)
  else none

/-- A number of a version. -/
def versionNumber? (input : List Glyph) : Option (Nat × List Glyph) :=
  let (digits, rest) := spanChars Char.isDigit input
  if digits.isEmpty || digits.length > 9 then none else some (Decimal.ofDigits digits, rest)

/-- A directive from behind its percent sign on, with the end of its line. -/
def directive? (input : List Glyph) : Option (Token × List Glyph) := do
  let (name, afterName) := spanChars isNameChar input
  let (_, rest) := spanChars isBlank afterName
  let (token, rest) ←
    if !atBlank afterName then none
    else if name == "YAML".toList then do
      let (major, rest) ← versionNumber? rest
      if !startsWith (· == '.') rest then none
      else
        let (minor, rest) ← versionNumber? (rest.drop 1)
        some (Token.version major minor, rest)
    else if name == "TAG".toList then do
      if !startsWith (· == '!') rest then none
      else
        let (handle, rest) := spanChars isNameChar (rest.drop 1)
        let closed := startsWith (· == '!') rest
        if !closed && !handle.isEmpty then none
        else
          let rest := if closed then rest.drop 1 else rest
          let text := "!" ++ String.ofList handle ++ (if closed then "!" else "")
          if !startsWith isBlank rest then none
          else
            let (leader, rest) ← uri? true (spanChars isBlank rest).2
            if atBlank rest then some (Token.tagHandle text leader, rest) else none
    else none
  let (_, rest) := spanChars isBlank rest
  let rest := if startsWith (· == '#') rest then (spanChars (fun c => !isBreak c) rest).2 else rest
  if atBreak rest then some (token, rest.drop 1) else none

end Yaml

end Logbook
