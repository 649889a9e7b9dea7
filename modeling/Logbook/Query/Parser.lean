import Logbook.Query.Token

/-!
# From tokens to predicates

The grammar, from the loosest connective to the tightest:

```text
disjunction := conjunction ('|' conjunction)*
conjunction := negation ('&' negation)*
negation    := '~' negation | primary
primary     := '(' disjunction ')' | key comparison scalar | key 'in' list
```

The parser takes one token at a time.  What it has read so far is a stack of open
levels, one for the whole query and one for each open parenthesis, each with its
finished left operands and the negations that wait for an operand.  The first token
that no query can continue with is reported, and a key outside the searchable
namespaces as soon as its atom is complete.
-/

namespace Logbook

/-- Why a text is not a query. -/
inductive QueryError where
  /-- The text has no tokens there. -/
  | lexical (cause : Query.LexicalCause) (character : Char) (position : Nat)
  /-- There are no tokens at all. -/
  | empty
  /-- No query continues with this token. -/
  | unexpected (found : Query.TokenKind) (position : Nat)
  /-- The query stops too early. -/
  | unexpectedEnd (position : Nat)
  /-- A parenthesis is not closed where it has to be. -/
  | expectedClosing (found : Query.TokenKind) (position : Nat)
  /-- A comparison has no literal on its right. -/
  | expectedScalar (comparison : Comparison) (found : Query.TokenKind) (position : Nat)
  /-- The word `in` has no list on its right. -/
  | expectedList (found : Query.TokenKind) (position : Nat)
  /-- A key is not followed by a comparison or `in`. -/
  | expectedOperator (key : String) (found : Query.TokenKind) (position : Nat)
  /-- The key of an atom is not searchable. -/
  | unsearchable (key : String)

namespace QueryError

/-- Whether the text is not a query at all, and not one about a wrong key. -/
def isMalformed : QueryError → Bool
  | unsearchable _ => false
  | _ => true

/-- A position in a query as messages give it. -/
def place (position : Nat) : String := " at position " ++ position.repr

/-- What is wrong, in words. -/
def message : QueryError → String
  | lexical cause character position =>
      match cause with
      | .illegalCharacter =>
          "Illegal character '" ++ String.singleton character ++ "'" ++ place position
      | .unterminatedText => "Unterminated string starting" ++ place position
      | .unterminatedList => "Unterminated list starting" ++ place position
      | .trailingComma => "Trailing comma in list" ++ place position
      | .invalidNumber text => "Invalid number '" ++ text ++ "'" ++ place position
      | .nonScalarItem =>
          "List literals may only contain scalars (position " ++ position.repr ++ ")"
      | .emptySegment => "Empty key segment" ++ place position
  | empty => "Empty query"
  | unexpected found position => "Unexpected " ++ found.describe ++ place position
  | unexpectedEnd position => "Unexpected end of query" ++ place position
  | expectedClosing found position => "Expected ')' but found " ++ found.describe ++ place position
  | expectedScalar comparison found position =>
      "Expected a scalar after '" ++ comparison.symbol ++ "' but found " ++ found.describe ++
        place position
  | expectedList found position =>
      "Expected a list after 'in' but found " ++ found.describe ++ place position
  | expectedOperator key found position =>
      "Expected an operator after key '" ++ key ++ "' but found " ++ found.describe
        ++ place position
  | unsearchable key =>
      "The key " ++ key ++ " is invalid! Valid keys must start with one of these prefixes: " ++
        Text.quoteList Key.searchableBeginnings

end QueryError

namespace Query

/-- The tokens of a query. -/
def tokenize (query : String) : Except QueryError (List Token) :=
  let input := query.toList
  let offset (rest : List Char) : Nat := byteLength input - byteLength rest
  match lexemes input.length input with
  | .ok found => .ok (found.map fun (kind, rest) => ⟨kind, offset rest⟩)
  | .error fault =>
      .error (.lexical fault.cause (fault.rest.head?.getD '?') (offset fault.rest))

/-- What has been read of a disjunction up to an operand that is still to come. -/
structure Level where
  /-- The disjunction on the left. -/
  disjunction : Option Predicate := none
  /-- The conjunction on the left. -/
  conjunction : Option Predicate := none
  /-- The negations directly in front of the operand. -/
  negations : Nat := 0

namespace Level

/-- A predicate under so many negations. -/
def negate : Nat → Predicate → Predicate
  | 0, operand => operand
  | count + 1, operand => .not (negate count operand)

/-- The conjunction that an operand completes. -/
def conjoin (level : Level) (operand : Predicate) : Predicate :=
  match level.conjunction with
  | some left => .and left (negate level.negations operand)
  | none => negate level.negations operand

/-- The disjunction that a conjunction completes. -/
def disjoin (level : Level) (conjunction : Predicate) : Predicate :=
  match level.disjunction with
  | some left => .or left conjunction
  | none => conjunction

end Level

/-- What the next token has to be. -/
inductive Expectation where
  /-- The start of an operand. -/
  | operand
  /-- A comparison, or `in`, after a key. -/
  | operator (key : String)
  /-- The literal of a comparison. -/
  | scalar (key : String) (comparison : Comparison)
  /-- The list after `in`. -/
  | list (key : String)
  /-- A connective, a closing parenthesis or the end, after a conjunction. -/
  | connective (conjunction : Predicate)

/-- What has been read of a query. -/
structure Progress where
  /-- The level that is being read. -/
  level : Level
  /-- The levels around it, the nearest first. -/
  outer : List Level
  /-- What has to come next. -/
  expectation : Expectation

namespace Progress

/-- Nothing has been read. -/
def start : Progress := ⟨{}, [], .operand⟩

/-- An atom is complete. -/
def atom (progress : Progress) (key : String) (atom : Predicate) : Except QueryError Progress :=
  if Key.isSearchable key then
    .ok { progress with expectation := .connective (progress.level.conjoin atom) }
  else .error (.unsearchable key)

/-- Reads one token. -/
def step (progress : Progress) (token : Token) : Except QueryError Progress :=
  match progress.expectation, token.kind with
  | .operand, .negation =>
      .ok { progress with level.negations := progress.level.negations + 1 }
  | .operand, .opening => .ok ⟨{}, progress.level :: progress.outer, .operand⟩
  | .operand, .key key => .ok { progress with expectation := .operator key }
  | .operand, found => .error (.unexpected found token.offset)
  | .operator key, .comparison comparison =>
      .ok { progress with expectation := .scalar key comparison }
  | .operator key, .membership => .ok { progress with expectation := .list key }
  | .operator key, found => .error (.expectedOperator key found token.offset)
  | .scalar key comparison, .scalar literal =>
      progress.atom key (.compare key comparison literal)
  | .scalar _ comparison, found => .error (.expectedScalar comparison found token.offset)
  | .list key, .list literals => progress.atom key (.oneOf key literals)
  | .list _, found => .error (.expectedList found token.offset)
  | .connective conjunction, .conjunction =>
      .ok { progress with
        level := { progress.level with conjunction := some conjunction, negations := 0 }
        expectation := .operand }
  | .connective conjunction, .disjunction =>
      .ok { progress with
        level := { disjunction := some (progress.level.disjoin conjunction) }
        expectation := .operand }
  | .connective conjunction, found =>
      match progress.outer, found with
      | level :: outer, .closing =>
          .ok ⟨level, outer, .connective (level.conjoin (progress.level.disjoin conjunction))⟩
      | _ :: _, found => .error (.expectedClosing found token.offset)
      | [], found => .error (.unexpected found token.offset)

/-- Reads tokens one after another. -/
def run (progress : Progress) : List Token → Except QueryError Progress
  | [] => .ok progress
  | token :: tokens => (progress.step token).bind fun progress => progress.run tokens

/-- The predicate, if the query may end here. -/
def finish? (progress : Progress) : Option Predicate :=
  match progress.expectation, progress.outer with
  | .connective conjunction, [] => some (progress.level.disjoin conjunction)
  | _, _ => none

end Progress

/-- The predicate of a sequence of tokens; `length` is the position of the end. -/
def parseTokens (length : Nat) (tokens : List Token) : Except QueryError Predicate :=
  if tokens.isEmpty then .error .empty
  else
    (Progress.start.run tokens).bind fun progress =>
      match progress.finish? with
      | some predicate => .ok predicate
      | none => .error (.unexpectedEnd length)

/-- The predicate of a query. -/
def parse (query : String) : Except QueryError Predicate :=
  (tokenize query).bind (parseTokens query.utf8ByteSize)

end Query

end Logbook
