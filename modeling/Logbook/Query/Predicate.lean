import Logbook.Key

/-!
# Predicates over documents

A predicate is what a query means: atoms that compare one field with a literal,
joined by conjunction, disjunction and negation.  An atom about a field that the
document does not have is false, and so is an order between values of kinds that
are not ordered among each other.
-/

namespace Logbook

/-- How an atom compares a field with its literal. -/
inductive Comparison where
  /-- The field equals the literal. -/
  | equal
  /-- The field differs from the literal. -/
  | notEqual
  /-- The field is less than the literal. -/
  | less
  /-- The field is at most the literal. -/
  | lessEqual
  /-- The field is greater than the literal. -/
  | greater
  /-- The field is at least the literal. -/
  | greaterEqual
  deriving DecidableEq, Repr

namespace Comparison

/-- How a comparison is written in a query. -/
def symbol : Comparison → String
  | equal => "=="
  | notEqual => "!="
  | less => "<"
  | lessEqual => "<="
  | greater => ">"
  | greaterEqual => ">="

/-- All comparisons. -/
def all : List Comparison := [equal, notEqual, less, lessEqual, greater, greaterEqual]

/-- The order of two values of kinds that are ordered: integers exactly, other
numbers as doubles, texts, truth values, lists. -/
def order? : Value → Value → Option Ordering
  | .int left, .int right => some (compare left.toInt right.toInt)
  | .int left, .float right => (Binary64.ofInt left.toInt).compare? right
  | .float left, .int right => left.compare? (Binary64.ofInt right.toInt)
  | .float left, .float right => left.compare? right
  | .str left, .str right => some (compare left right)
  | .bool left, .bool right => some (compare left right)
  | left@(.list _), right@(.list _) => some (left.order right)
  | _, _ => none

/-- Whether an order is one that the comparison asks for. -/
def accepts : Comparison → Ordering → Bool
  | equal, order => order == .eq
  | notEqual, order => order != .eq
  | less, order => order == .lt
  | lessEqual, order => order != .gt
  | greater, order => order == .gt
  | greaterEqual, order => order != .lt

/-- Whether a field compares with a literal as asked. -/
def holds (comparison : Comparison) (field literal : Value) : Bool :=
  match comparison with
  | equal => field.same literal
  | notEqual => !field.same literal
  | _ => ((order? field literal).map comparison.accepts).getD false

end Comparison

/-- A condition on a document. -/
inductive Predicate where
  /-- A field compares with a literal. -/
  | compare (key : String) (comparison : Comparison) (literal : Value)
  /-- A field equals one of several literals. -/
  | oneOf (key : String) (literals : List Value)
  /-- Both conditions hold. -/
  | and (left right : Predicate)
  /-- At least one of the conditions holds. -/
  | or (left right : Predicate)
  /-- The condition does not hold. -/
  | not (inner : Predicate)

namespace Predicate

instance : Inhabited Predicate := ⟨.oneOf "" []⟩

/-- Whether a document satisfies a predicate. -/
def holds (document : Document) : Predicate → Bool
  | compare key comparison literal =>
      match document.get? key with
      | some field => comparison.holds field literal
      | none => false
  | oneOf key literals =>
      match document.get? key with
      | some field => literals.any fun literal => literal.same field
      | none => false
  | and left right => left.holds document && right.holds document
  | or left right => left.holds document || right.holds document
  | not inner => !inner.holds document

/-- The keys of the atoms, from left to right. -/
def atomKeys : Predicate → List String
  | compare key _ _ => [key]
  | oneOf key _ => [key]
  | and left right => left.atomKeys ++ right.atomKeys
  | or left right => left.atomKeys ++ right.atomKeys
  | not inner => inner.atomKeys

/-- The keys that a predicate refers to, each where it first appears. -/
def keys (predicate : Predicate) : List String := predicate.atomKeys.eraseDups

/-- A literal as a query spells it. -/
def renderLiteral : Value → String
  | .str text => "'" ++ text ++ "'"
  | literal => literal.render

/-- The text of a predicate, with every connective of two conditions in parentheses. -/
def render : Predicate → String
  | compare key comparison literal =>
      key ++ " " ++ comparison.symbol ++ " " ++ renderLiteral literal
  | oneOf key literals => key ++ " in [" ++ ", ".intercalate (literals.map renderLiteral) ++ "]"
  | and left right => "(" ++ left.render ++ " & " ++ right.render ++ ")"
  | or left right => "(" ++ left.render ++ " | " ++ right.render ++ ")"
  | not inner => "~" ++ inner.render

instance : ToString Predicate := ⟨render⟩

end Predicate

end Logbook
