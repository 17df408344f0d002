/-
# Values

What queries are applied to and what they give: the values of JSON, with
whole numbers apart from floating-point ones, points in time, and three kinds
of values that sources of data hand out. A record has attributes instead of
entries, a deferred value is computed when an entity reaches it, and a
collection yields its items, or fails, when it is realized. These three have
an identity of their own, the handle, by which they are told apart.

Key definitions: `Accessor`, `Value`, `Value.typeName`, `Value.isScalar`,
`Value.realize`, `Value.equals`.
-/
import NestedQuery.Binary64
import NestedQuery.DateTime
import NestedQuery.Entries
import NestedQuery.Error
import NestedQuery.Query

namespace NestedQuery

/-- How properties are read: a strict accessor fails where a lenient one finds `null`. -/
structure Accessor where
  strict : Bool := false
  deriving DecidableEq

/-- The values that queries work on. -/
inductive Value where
  | null
  | boolean (b : Bool)
  | integer (n : Int64)
  | float (x : Binary64)
  | string (s : String)
  | array (items : List Value)
  | object (entries : List (String × Value))
  | dateTime (t : DateTime)
  | record (handle : Nat) (type : String) (attributes : List (String × Value))
  | deferred (handle : Nat) (compute : Entity → Accessor → Except EvalError Value)
  | collection (handle : Nat) (outcome : Except EvalError (List Value))

instance : Inhabited Value := ⟨.null⟩

namespace Value

/-- The name of the value's type in messages; a record has one of its own. -/
def typeName : Value → String
  | null => "null"
  | boolean _ => "boolean"
  | integer _ => "integer"
  | float _ => "float"
  | string _ => "string"
  | array _ => "array"
  | object _ => "object"
  | dateTime _ => "datetime"
  | record _ type _ => type
  | deferred _ _ => "deferred"
  | collection _ _ => "collection"

/-- Whether the value has no properties to read. -/
def isScalar : Value → Bool
  | null | boolean _ | integer _ | float _ | string _ | dateTime _ => true
  | _ => false

/-- Whether there is no value. -/
def isNull : Value → Bool
  | null => true
  | _ => false

/-- The text of a text value. -/
def text? : Value → Option String
  | string s => some s
  | _ => none

/-- The items of an array. -/
def items? : Value → Option (List Value)
  | array items => some items
  | _ => none

/-- The entries of an object. -/
def entries? : Value → Option (Entries Value)
  | object entries => some entries
  | _ => none

/-- The object with these pairs, a later value of a key replacing an earlier one. -/
def ofPairs (pairs : List (String × Value)) : Value := object (Entries.ofPairs pairs)

/-- The value with a collection replaced by the array of its items. -/
def realize : Value → Except EvalError Value
  | collection _ outcome => outcome.map array
  | v => .ok v

/-! ### Equality -/

mutual

/-- Equality of values. Objects are equal whatever the order of their keys, points in time if
they are the same instant, and values with a handle if that is the same. -/
def equals : Value → Value → Bool
  | null, null => true
  | boolean a, boolean b => a == b
  | integer a, integer b => a == b
  | float a, float b => a.equals b
  | string a, string b => a == b
  | array a, array b => itemsEqual a b
  | object a, object b => a.length == b.length && entriesWithin a b
  | dateTime a, dateTime b => a.order b == .eq
  | record a _ _, record b _ _ => a == b
  | deferred a _, deferred b _ => a == b
  | collection a _, collection b _ => a == b
  | _, _ => false

/-- Equality item by item. -/
def itemsEqual : List Value → List Value → Bool
  | [], [] => true
  | a :: as, b :: bs => equals a b && itemsEqual as bs
  | _, _ => false

/-- Whether every entry is found among the others with an equal value. -/
def entriesWithin : List (String × Value) → List (String × Value) → Bool
  | [], _ => true
  | (key, a) :: entries, others =>
    (match Entries.get? others key with
      | some b => equals a b
      | none => false) && entriesWithin entries others

end

/-- Equality of entries, whatever their order. -/
def entriesEqual (a b : Entries Value) : Bool := a.length == b.length && entriesWithin a b

end Value
end NestedQuery
