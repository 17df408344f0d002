/-
# Values and JSON

A value becomes JSON by realizing its collections, showing points in time as
ISO 8601 text and records as objects; deferred values and numbers that are
not finite become `null`. This fails only where a collection does, with the
first such failure. JSON becomes a value as it is, except that whole numbers
beyond 64 bits with sign become floating-point numbers.

Key definitions: `Value.toJson`, `Value.entriesToJson`, `Value.ofJson`,
`Selection.toJson`.
-/
import NestedQuery.Evaluator
import NestedQuery.Json

namespace NestedQuery
namespace Value

mutual

/-- The JSON of a value. -/
def toJson : Value → Except EvalError Json
  | null => .ok .null
  | boolean b => .ok (.boolean b)
  | integer n => .ok (.integer n.toInt)
  | float x => .ok (.ofFloat x)
  | string s => .ok (.string s)
  | array items => (itemsToJson items).map .array
  | object entries => (entriesToJson entries).map .object
  | dateTime t => .ok (.string t.iso)
  | record _ _ attributes => (entriesToJson attributes).map .object
  | deferred _ _ => .ok .null
  | collection _ (.ok items) => (itemsToJson items).map .array
  | collection _ (.error e) => .error e

/-- The JSON of items, unless one of them fails. -/
def itemsToJson : List Value → Except EvalError (List Json)
  | [] => .ok []
  | v :: vs =>
    match toJson v with
    | .error e => .error e
    | .ok j => (itemsToJson vs).map (j :: ·)

/-- The JSON of entries, unless one of them fails. -/
def entriesToJson : List (String × Value) → Except EvalError (List (String × Json))
  | [] => .ok []
  | (key, v) :: entries =>
    match toJson v with
    | .error e => .error e
    | .ok j => (entriesToJson entries).map ((key, j) :: ·)

end

/-- A whole number as a value. -/
def ofInt (n : Int) : Value :=
  if Int64.minValue.toInt ≤ n ∧ n ≤ Int64.maxValue.toInt then integer (Int64.ofInt n)
  else float (.ofInt n)

mutual

/-- The value of some JSON. -/
def ofJson : Json → Value
  | .null => null
  | .boolean b => boolean b
  | .integer n => ofInt n
  | .float x => float (.finite x)
  | .string s => string s
  | .array items => array (itemsOfJson items)
  | .object members => object (entriesOfJson members)

/-- The values of items. -/
def itemsOfJson : List Json → List Value
  | [] => []
  | j :: js => ofJson j :: itemsOfJson js

/-- The values of members. -/
def entriesOfJson : List (String × Json) → List (String × Value)
  | [] => []
  | (key, j) :: members => (key, ofJson j) :: entriesOfJson members

end

end Value

/-- The JSON of a selection: an object by alias, or `null`. -/
def Selection.toJson : Selection → Except EvalError Json
  | some entries => (Value.entriesToJson entries).map .object
  | none => .ok .null

end NestedQuery
