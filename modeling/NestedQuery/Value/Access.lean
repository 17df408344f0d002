/-
# Reading properties

A segment reads an entry of an object, an attribute of a record, or an item
of an array; a collection is read as the array of its items. A position reads
the entry named by its decimal numeral, and a name that is a numeral reads an
item. A path reads segment by segment, and a single key is tried as it is
before it is taken for a path. What is missing reads as `null`, or fails if
the accessor is strict.

Key definitions: `Value.read`, `Value.follow`, `Accessor.getValue`,
`Accessor.getKey`.
-/
import NestedQuery.PropertyPath
import NestedQuery.Value

namespace NestedQuery

namespace Segment

/-- The key that a segment reads from keyed values. -/
def key : Segment → String
  | field name => name
  | index position => toString position

/-- The position that a segment reads from sequences, if it has one. -/
def position? : Segment → Option Nat
  | field name => Numeral.index? name
  | index position => some position

end Segment

namespace Value

/-- The item of a sequence that a segment reads. -/
def item? (items : List Value) (segment : Segment) : Option Value :=
  segment.position?.bind fun position => items[position]?

/-- What a segment reads from a value; scalars and deferred values have no properties. -/
def read (segment : Segment) : Value → Except EvalError (Option Value)
  | object entries => .ok (Entries.get? entries segment.key)
  | record _ _ attributes => .ok (Entries.get? attributes segment.key)
  | array items => .ok (item? items segment)
  | collection _ outcome => outcome.map fun items => item? items segment
  | _ => .ok none

/-- What a sequence of segments reads from a value. -/
def follow : List Segment → Value → Except EvalError (Option Value)
  | [], v => .ok (some v)
  | segment :: segments, v =>
    match v.read segment with
    | .error e => .error e
    | .ok none => .ok none
    | .ok (some w) => follow segments w

end Value

namespace Accessor

/-- What a missing property reads as. -/
def missing (accessor : Accessor) (path : String) : Except EvalError Value :=
  if accessor.strict then .error (.noSuchProperty path) else .ok .null

/-- The value at a path. -/
def getValue (accessor : Accessor) (target : Value) (path : String) : Except EvalError Value :=
  match parsePath path with
  | .error e => .error e
  | .ok segments =>
    match target.follow segments with
    | .error e => .error e
    | .ok (some v) => .ok v
    | .ok none => accessor.missing path

/-- The value of a key, which is taken for a path only if there is no such key. -/
def getKey (accessor : Accessor) (target : Value) (key : String) : Except EvalError Value :=
  match target.read (.field key) with
  | .error e => .error e
  | .ok (some v) => .ok v
  | .ok none =>
    if key.toList.any fun c => c = '.' ∨ c = '[' then accessor.getValue target key
    else accessor.missing key

end Accessor
end NestedQuery
