/-
# JSON values

The values of the data format. Numbers are whole or floating-point, and a
floating-point number is finite, since the format has no text for the others.
The members of an object keep their order.

Key definitions: `Json`, `Json.ofFloat`.
-/
import NestedQuery.Binary64
import NestedQuery.Entries

namespace NestedQuery

/-- A value of the data format. -/
inductive Json where
  | null
  | boolean (b : Bool)
  | integer (n : Int)
  | float (x : Binary64.Finite)
  | string (s : String)
  | array (items : List Json)
  | object (members : List (String × Json))

instance : Inhabited Json := ⟨.null⟩

namespace Json

/-- What is written for a floating-point number: `null` unless it is finite. -/
def ofFloat : Binary64 → Json
  | .finite x => .float x
  | _ => .null

/-- Text or `null`. -/
def ofText? : Option String → Json
  | some text => .string text
  | none => .null

end Json
end NestedQuery
