/-
# Values on display

How a value is shown with everything it is made of: each value after the
name of its kind, records with their type and attributes. What a deferred
value or a collection holds is not shown.

Key definitions: `Value.display`, `Root.display`.
-/
import NestedQuery.Binary64.Text
import NestedQuery.Evaluator
import NestedQuery.Text.Display

namespace NestedQuery
namespace Value

/-- Powers of ten from -4 to 15 are written out; greater ones carry no plus. Ties go up. -/
def displayStyle : Binary64.Style := ⟨-4, 15, "", .up⟩

mutual

/-- A value as it is shown. -/
def display : Value → String
  | null => "Null"
  | boolean true => "Boolean(true)"
  | boolean false => "Boolean(false)"
  | integer n => s!"Integer({n.toInt})"
  | float x => s!"Float({x.write displayStyle})"
  | string s => s!"String({Text.display s})"
  | array items => "Array([" ++ ", ".intercalate (displayItems items) ++ "])"
  | object entries => "Object(\x7b" ++ ", ".intercalate (displayEntries entries) ++ "\x7d)"
  | dateTime t => s!"DateTime({t.display})"
  | record _ type attributes =>
    "Record(MapRecord \x7b type_name: " ++ Text.display type ++ ", attributes: \x7b" ++
      ", ".intercalate (displayEntries attributes) ++ "\x7d \x7d)"
  | deferred _ _ => "Deferred(Deferred(..))"
  | collection _ _ => "Collection(Collection(..))"

/-- Items as they are shown. -/
def displayItems : List Value → List String
  | [] => []
  | v :: vs => display v :: displayItems vs

/-- Entries as they are shown. -/
def displayEntries : List (String × Value) → List String
  | [] => []
  | (key, v) :: entries => (Text.display key ++ ": " ++ display v) :: displayEntries entries

end

end Value

/-- A root as it is shown. -/
def Root.display : Root → String
  | value v => s!"Value({v.display})"
  | resolver _ => "Resolver(..)"

end NestedQuery
