/-
# The shortest decimal that reads back

A decimal is written for a number: of all decimals that round to it, those
with the fewest digits, and of these the one nearest to the number; where two
are as near, a rule for ties picks one. A decimal rounds to the number if it
lies between the midpoints to the two neighbours of the number, the midpoints
included exactly if the mantissa is even.

The search goes through grids of one digit, two digits and so on. If a
decimal of one grid rounds to the number, so does one of the two grid points
around the number, and seventeen digits always suffice.

Key definitions: `Binary64.Tie`, `Binary64.Interval`,
`Binary64.Finite.shortest`.
-/
import NestedQuery.Binary64

namespace NestedQuery
namespace Binary64

/-- The decimal `digits * 10 ^ exponent`. -/
structure Decimal where
  digits : Nat
  exponent : Int
  deriving DecidableEq

/-- Which of two decimals is taken that are as near to a magnitude. -/
inductive Tie where
  /-- The one with the even last digit. -/
  | even
  /-- The greater one. -/
  | up
  deriving DecidableEq

/-- Whether the lesser one is taken, given its digits. -/
def Tie.takesLesser : Tie → Nat → Bool
  | even, digits => digits % 2 == 0
  | up, _ => false

/-- The magnitudes that round to a number, as integers over a common denominator. -/
structure Interval where
  low : Nat
  value : Nat
  high : Nat
  den : Nat
  /-- Whether the two ends belong to it. -/
  closed : Bool

/-- The magnitudes that round to a finite number other than zero. The neighbour below a power
of two is twice as near as the one above. -/
def Finite.interval (x : Finite) : Interval :=
  let below := if x.mantissa = Nat.pow 2 52 ∧ -1074 < x.exponent then 1 else 2
  let scale := Nat.pow 2 (x.exponent + 1074).toNat
  ⟨(4 * x.mantissa - below) * scale, 4 * x.mantissa * scale, (4 * x.mantissa + 2) * scale,
    4 * unitsPerOne, x.mantissa % 2 = 0⟩

/-- The exponent of the first digit of the positive ratio `num / den`. -/
def firstDigit (num den : Nat) : Int :=
  if den ≤ num then (Nat.toDigits 10 (num / den)).length - 1
  else -(Nat.toDigits 10 ((den - 1) / num)).length

/-- Whether the decimal lies in the interval. -/
def Interval.has (i : Interval) (d : Decimal) : Bool :=
  let scaled (n : Nat) := if 0 ≤ d.exponent then n else n * Nat.pow 10 (-d.exponent).toNat
  let point := if 0 ≤ d.exponent then d.digits * Nat.pow 10 d.exponent.toNat * i.den
    else d.digits * i.den
  if i.closed then scaled i.low ≤ point && point ≤ scaled i.high
  else scaled i.low < point && point < scaled i.high

/-- The point of the grid of this exponent that rounds to the number, if there is one; the
nearer of two. -/
def Interval.gridPoint? (i : Interval) (tie : Tie) (exponent : Int) : Option Decimal :=
  let num := if 0 ≤ exponent then i.value else i.value * Nat.pow 10 (-exponent).toNat
  let den := if 0 ≤ exponent then i.den * Nat.pow 10 exponent.toNat else i.den
  let below : Decimal := ⟨num / den, exponent⟩
  let above : Decimal := ⟨num / den + 1, exponent⟩
  let twice := 2 * (num % den)
  let takesBelow := twice < den || (twice == den && tie.takesLesser below.digits)
  let (nearer, other) := if takesBelow then (below, above) else (above, below)
  if i.has nearer then some nearer else if i.has other then some other else none

/-- The decimal without the zeros at its end. -/
def Decimal.trim (d : Decimal) : Decimal :=
  if h : d.digits ≠ 0 ∧ d.digits % 10 = 0 then Decimal.trim ⟨d.digits / 10, d.exponent + 1⟩ else d
termination_by d.digits
decreasing_by exact Nat.div_lt_self (Nat.pos_of_ne_zero h.1) (by decide)

/-- The shortest decimal of a magnitude; zero is `0`. -/
def Finite.shortest (x : Finite) (tie : Tie) : Decimal :=
  if x.mantissa = 0 then ⟨0, 0⟩
  else
    let i := x.interval
    let first := firstDigit i.value i.den
    (((List.range 17).findSome? fun (n : Nat) => i.gridPoint? tie (first - n)).getD ⟨0, 0⟩).trim

end Binary64
end NestedQuery
