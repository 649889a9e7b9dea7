import Logbook.Mapping.Basic

/-!
# A stock of functions

Functions to build mappings from: simple ones on cells, and some on columns that
compare, rank and choose rows.
-/

namespace Logbook

namespace Stock

/-- The items of the first argument, if it is a list. -/
def items (arguments : List Value) : List Value :=
  (arguments.head?.bind Value.toItems?).getD []

/-- The number that a value holds; zero if it holds none. -/
def numberOrZero (value : Value) : Binary64 := value.toBinary64?.getD 0

/-- A number with its sign changed; other values stay as they are. -/
def negate : Value → Value
  | .int number => .int (-number)
  | .float number => .float (-number)
  | value => value

/-- How many items a list has; zero for other values. -/
def length (value : Value) : Value :=
  .int (Int64.ofNat ((value.toItems?.map List.length).getD 0))

/-- The entry of a map under a key. -/
def entry (key value : Value) : Value :=
  match key.toText?, value.toEntries? with
  | some key, some entries => ((entries.find? fun entry => entry.1 == key).map Prod.snd).getD .null
  | _, _ => .null

/-- The names of the types of the arguments. -/
def types (arguments : List Value) : Value :=
  .str (",".intercalate (arguments.map Value.typeName))

/-- The texts of the arguments. -/
def join (arguments : List Value) : Value :=
  .str ("-".intercalate (arguments.map Value.render))

/-- The product of the arguments. -/
def product (arguments : List Value) : Value :=
  .float ((arguments.map numberOrZero).foldl (· * ·) 1)

/-- Whether a value is a number in the given order to a bound. -/
def compares (order : Ordering) (bound : Binary64) (value : Value) : Bool :=
  match value.toBinary64? with
  | some number => number.compare? bound == some order
  | none => false

/-- For each item, whether it is above a bound. -/
def above (bound : Value) (arguments : List Value) : Value :=
  .list ((items arguments).map fun item => .bool (compares .gt (numberOrZero bound) item))

/-- For each item, whether it is a list that ends below a bound. -/
def lastBelow (bound : Value) (arguments : List Value) : Value :=
  .list ((items arguments).map fun item =>
    match item.toItems?.bind List.getLast? with
    | some last => .bool (compares .lt (numberOrZero bound) last)
    | none => .bool false)

/-- For each number among the items, whether it is at least their mean. -/
def atLeastMean (arguments : List Value) : Value :=
  let numbers := (items arguments).filterMap Value.toBinary64?
  let mean := Binary64.sum numbers / Binary64.ofInt numbers.length
  .list (numbers.map fun number =>
    let order := number.compare? mean
    .bool (order == some .gt || order == some .eq))

/-- True for the first item and false for the others. -/
def first (arguments : List Value) : Value :=
  .list ((List.range (items arguments).length).map fun position => .bool (position == 0))

/-- For each item, how many items are less. -/
def rank (arguments : List Value) : Value :=
  let items := items arguments
  .list (items.map fun item =>
    .int (Int64.ofNat (items.filter fun other => other.order item == .lt).length))

/-- The first items, as many as a number says. -/
def take (count : Value) (arguments : List Value) : Value :=
  .list ((items arguments).take ((count.toInt64?.map Int64.toNatClampNeg).getD 0))

/-- The mapping of a function in the stock. -/
def mapping? (function name : String) (inputs : List String) (parameter : Value) : Option Mapping :=
  let unary (run : Value → Value) : Option Mapping := some (.unary name inputs run)
  let general (run : List Value → Except Error (List Value)) : Option Mapping :=
    some ⟨name, inputs, none, run⟩
  let single (run : List Value → Value) : Option Mapping :=
    general fun arguments => .ok [run arguments]
  match function with
  | "id" => general .ok
  | "const" => general fun _ => .ok [parameter]
  | "values" => general fun _ => .ok (parameter.toItems?.getD [])
  | "neg" => unary negate
  | "type" => unary fun value => .str value.typeName
  | "len" => unary length
  | "item" => unary (entry parameter)
  | "types" => single types
  | "join" => single join
  | "product" => single product
  | "above" => single (above parameter)
  | "last_below" => single (lastBelow parameter)
  | "at_least_mean" => single atLeastMean
  | "first" => single first
  | "rank" => single rank
  | "take" => single (take parameter)
  | "fail" => general fun _ => .error (.failure parameter.render)
  | "fail_on" => general fun arguments =>
      if arguments.any fun argument => argument.same parameter then
        .error (.failure ("hit " ++ parameter.render))
      else .ok arguments
  | _ => none

end Stock

end Logbook
