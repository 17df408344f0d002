/-
# The order of values

Values are sorted by kind first: `null`, booleans, numbers, texts, points in
time, sequences, keyed values, deferred values. Within the kinds that have an
order of their own that order decides; sequences, keyed values and deferred
values tie. Texts are ordered by code points. A whole number is compared with
a floating-point one through the decimal of the latter, if it has one, and
otherwise as floating-point numbers; what is not a number ties with numbers.

Key definitions: `Value.rank`, `Value.mixedOrder`, `Value.order`.
-/
import NestedQuery.Decimal96
import NestedQuery.Value

namespace NestedQuery
namespace Value

/-- The place of the value's kind among the kinds. -/
def rank : Value → Nat
  | null => 0
  | boolean _ => 1
  | integer _ | float _ => 2
  | string _ => 3
  | dateTime _ => 4
  | array _ | collection _ _ => 5
  | object _ | record _ _ _ => 6
  | deferred _ _ => 7

/-- The decimal of a floating-point number, if it has one. -/
def decimal? : Binary64 → Option Decimal96
  | .finite x => Decimal96.ofFinite? x
  | _ => none

/-- The order of a whole number and a floating-point one. -/
def mixedOrder (n : Int) (x : Binary64) : Ordering :=
  match decimal? x with
  | some d => d.compareInt n
  | none => (Binary64.ofInt n).order x

/-- The order by which values are sorted. -/
def order : Value → Value → Ordering
  | integer a, integer b => compare a.toInt b.toInt
  | float a, float b => a.order b
  | integer a, float b => mixedOrder a.toInt b
  | float a, integer b => (mixedOrder b.toInt a).swap
  | string a, string b => compare a b
  | boolean a, boolean b => compare a b
  | dateTime a, dateTime b => a.order b
  | a, b => compare a.rank b.rank

end Value
end NestedQuery
