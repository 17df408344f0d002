/-
# Binary64 numbers

The floating-point numbers of the 64-bit interchange format, kept exact: a
finite number is a sign, a mantissa below `2 ^ 53` and a power of two, in the
one canonical form of its value. Every finite number is a whole multiple of
the least positive one, `2 ^ -1074`, so the order of finite numbers is the
order of these integers (`Finite.units`). Numbers are made by rounding a
ratio to the nearest one, a tie going to the even mantissa.

Key definitions: `Binary64.Canonical`, `Binary64.Finite`, `Binary64`,
`Binary64.Finite.units`, `Binary64.ofRatio`, `Binary64.compare?`.
Key theorem: `Binary64.compare?_swap`.
-/
namespace NestedQuery

namespace Binary64

/-- The one form of a magnitude `mantissa * 2 ^ exponent`: the mantissa has 53 bits, unless the
exponent is the least one. -/
def Canonical (mantissa : Nat) (exponent : Int) : Prop :=
  mantissa < Nat.pow 2 53 ∧ -1074 ≤ exponent ∧ exponent ≤ 971 ∧
    (Nat.pow 2 52 ≤ mantissa ∨ exponent = -1074)

instance (mantissa : Nat) (exponent : Int) : Decidable (Canonical mantissa exponent) :=
  inferInstanceAs (Decidable (_ ∧ _ ∧ _ ∧ (_ ∨ _)))

/-- A finite number; zero has two signs. -/
structure Finite where
  negative : Bool
  mantissa : Nat
  exponent : Int
  canonical : Canonical mantissa exponent
  deriving DecidableEq

/-- How many times the least positive number fits into the number. -/
def Finite.units (x : Finite) : Int :=
  let magnitude : Nat := x.mantissa * Nat.pow 2 (x.exponent + 1074).toNat
  if x.negative then -(magnitude : Int) else magnitude

/-- How many of the least positive number make one. -/
def unitsPerOne : Nat := Nat.pow 2 1074

end Binary64

/-- A number of the 64-bit interchange format. -/
inductive Binary64 where
  | finite (x : Binary64.Finite)
  | infinity (negative : Bool)
  | nan
  deriving DecidableEq

namespace Binary64

/-- The zero of this sign. -/
def zero (negative : Bool) : Binary64 := .finite ⟨negative, 0, -1074, by decide⟩

/-- The quotient rounded to the nearest whole number, a tie going to the even one. -/
def divToEven (num den : Nat) : Nat :=
  let quotient := num / den
  let twice := 2 * (num % den)
  if den < twice ∨ (twice = den ∧ quotient % 2 = 1) then quotient + 1 else quotient

/-- The number with this mantissa and exponent, or infinity if there is no such number. -/
def ofParts (negative : Bool) (mantissa : Nat) (exponent : Int) : Binary64 :=
  if h : Canonical mantissa exponent then .finite ⟨negative, mantissa, exponent, h⟩
  else .infinity negative

/-- The exponent at which the ratio has a mantissa of 53 bits, but at least the least one. -/
def exponentOf (num den : Nat) : Int :=
  let guess : Int := (num.log2 : Int) - den.log2 - 52
  let shift := guess + 52
  let below :=
    if 0 ≤ shift then num < den * Nat.pow 2 shift.toNat else num * Nat.pow 2 (-shift).toNat < den
  max (if below then guess - 1 else guess) (-1074)

/-- The number nearest to `num / den`, with this sign; `den` is positive. -/
def ofRatio (negative : Bool) (num den : Nat) : Binary64 :=
  if num = 0 then zero negative
  else
    let exponent := exponentOf num den
    let mantissa :=
      if 0 ≤ exponent then divToEven num (den * Nat.pow 2 exponent.toNat)
      else divToEven (num * Nat.pow 2 (-exponent).toNat) den
    if mantissa = Nat.pow 2 53 then ofParts negative (Nat.pow 2 52) (exponent + 1)
    else ofParts negative mantissa exponent

/-- The number nearest to an integer. -/
def ofInt (n : Int) : Binary64 := ofRatio (decide (n < 0)) n.natAbs 1

/-- The number nearest to `digits * 10 ^ exponent`, with this sign. Beyond 400 places no value
is left but zero and infinity. -/
def ofDecimal (negative : Bool) (digits : Nat) (exponent : Int) : Binary64 :=
  let places : Int := (Nat.toDigits 10 digits).length + exponent
  if digits = 0 ∨ places < -400 then zero negative
  else if 400 < places then .infinity negative
  else if 0 ≤ exponent then ofRatio negative (digits * Nat.pow 10 exponent.toNat) 1
  else ofRatio negative digits (Nat.pow 10 (-exponent).toNat)

/-- The number as a finite one, if it is finite. -/
def finite? : Binary64 → Option Finite
  | finite x => some x
  | _ => none

/-! ### Order -/

/-- The order of two numbers; what is not a number has no place in it. -/
def compare? : Binary64 → Binary64 → Option Ordering
  | nan, _ => none
  | _, nan => none
  | finite x, finite y => some (compare x.units y.units)
  | finite _, infinity negative => some (if negative then .gt else .lt)
  | infinity negative, finite _ => some (if negative then .lt else .gt)
  | infinity a, infinity b => some (if a = b then .eq else if a then .lt else .gt)

/-- Equality of values: the two zeros are equal, and what is not a number equals nothing. -/
def equals (x y : Binary64) : Bool := compare? x y == some .eq

/-- The order of two numbers, in which what is not a number ties with everything. -/
def order (x y : Binary64) : Ordering := (compare? x y).getD .eq

/-- Exchanging the numbers reverses their order. -/
theorem compare?_swap (x y : Binary64) : compare? y x = (compare? x y).map Ordering.swap := by
  cases x <;> cases y <;> simp only [compare?, Option.map_some, Option.map_none, Option.some.injEq]
  · exact Std.OrientedCmp.eq_swap
  · split <;> rfl
  · split <;> rfl
  · next a b => cases a <;> cases b <;> rfl

theorem equals_comm (x y : Binary64) : x.equals y = y.equals x := by
  simp only [equals, compare?_swap x y]
  cases compare? x y with
  | none => rfl
  | some o => cases o <;> rfl

theorem order_swap (x y : Binary64) : y.order x = (x.order y).swap := by
  simp only [order, compare?_swap x y]
  cases compare? x y <;> rfl

/-! ### Products and quotients -/

/-- The product of two magnitudes, rounded once. -/
def mulMagnitude (x y : Finite) : Binary64 :=
  ofRatio false (x.units.natAbs * y.units.natAbs) (unitsPerOne * unitsPerOne)

/-- The quotient of two magnitudes, rounded once; the divisor is positive. -/
def divMagnitude (x y : Finite) : Binary64 := ofRatio false x.units.natAbs y.units.natAbs

end Binary64
end NestedQuery
