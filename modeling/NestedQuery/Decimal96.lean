/-
# Decimals of 96 bits

A decimal has a coefficient of at most 96 bits and at most 28 places behind
the point. A binary number becomes a decimal in two steps. First it gets as
many places as the coefficient has room for. Then places are rounded away,
one at a time and half up, down to 28 places and further on until the
coefficient has 52 bits or no places are left, since a binary number carries
no more digits than that. A number without digits in the first 28 places is
zero. So a binary number and its decimal differ in the last digits, and
numbers from `2 ^ 96` on have no decimal.

Key definitions: `Decimal96`, `Decimal96.ofFinite?`, `Decimal96.compareInt`.
Key theorems: `Decimal96.places_trim_le`, `Decimal96.coefficient_lt_of_trim`.
-/
import NestedQuery.Binary64

namespace NestedQuery

/-- The decimal `± coefficient * 10 ^ -places`. -/
structure Decimal96 where
  negative : Bool
  coefficient : Nat
  places : Nat
  deriving DecidableEq

namespace Decimal96

/-- Coefficients are below this bound. -/
def coefficientBound : Nat := Nat.pow 2 96

/-- The most places a decimal has. -/
def greatestPlaces : Nat := 28

/-- A coefficient below this bound is not shortened further. -/
def trimBound : Nat := Nat.pow 2 52

/-- The quotient rounded to the nearest whole number, a half going up. -/
def divHalfUp (num den : Nat) : Nat := (2 * num + den) / (2 * den)

/-- The magnitude of a binary number as a coefficient with this many places. -/
def coefficientAt (x : Binary64.Finite) (places : Nat) : Nat :=
  x.units.natAbs * Nat.pow 10 places / Binary64.unitsPerOne

/-- The decimal without the places that it has no room for, each one rounded away half up. -/
def trim (negative : Bool) (coefficient : Nat) : Nat → Decimal96
  | 0 => ⟨negative, coefficient, 0⟩
  | places + 1 =>
    if places < greatestPlaces ∧ coefficient < trimBound then ⟨negative, coefficient, places + 1⟩
    else if coefficient < 10 then ⟨negative, 0, 0⟩
    else trim negative (divHalfUp coefficient 10) places

/-- A trimmed decimal has no more places than decimals have. -/
theorem places_trim_le (negative : Bool) (coefficient places : Nat) :
    (trim negative coefficient places).places ≤ greatestPlaces := by
  fun_induction trim negative coefficient places with
  | case1 => exact Nat.zero_le _
  | case2 coefficient places h => exact h.1
  | case3 => exact Nat.zero_le _
  | case4 coefficient places h hc ih => exact ih

/-- A trimmed decimal with places left has a short coefficient. -/
theorem coefficient_lt_of_trim (negative : Bool) (coefficient places : Nat)
    (h : (trim negative coefficient places).places ≠ 0) :
    (trim negative coefficient places).coefficient < trimBound := by
  fun_induction trim negative coefficient places with
  | case1 => exact absurd rfl h
  | case2 coefficient places hp => exact hp.2
  | case3 => exact absurd rfl h
  | case4 coefficient places _ _ ih => exact ih h

/-- With this many places the least binary number fills a coefficient. -/
def enoughPlaces : Nat := 352

/-- The most places at which the magnitude still fits a coefficient. -/
def placesOf? (x : Binary64.Finite) : Option Nat :=
  ((List.range (enoughPlaces + 1)).takeWhile fun places =>
    coefficientAt x places < coefficientBound).getLast?

/-- The decimal of a binary number; a number from `2 ^ 96` on has none. -/
def ofFinite? (x : Binary64.Finite) : Option Decimal96 :=
  (placesOf? x).map fun places => trim x.negative (coefficientAt x places) places

/-- The order of a whole number and a decimal. -/
def compareInt (n : Int) (d : Decimal96) : Ordering :=
  let numerator : Int := if d.negative then -(d.coefficient : Int) else d.coefficient
  compare (n * (Nat.pow 10 d.places : Nat)) numerator

end Decimal96
end NestedQuery
