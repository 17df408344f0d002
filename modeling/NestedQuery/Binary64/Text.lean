/-
# Numbers as text

A number is written with the digits of its shortest decimal. Numbers of
moderate size are written out with at least one digit behind the point; the
others have one digit in front of the point and a power of ten. What counts
as moderate, whether a positive power carries a sign and how ties between
shortest decimals go is a matter of the style.

A number is read from a decimal numeral with an optional fraction and power
of ten, or from one of the names of the values that have no digits.

Key definitions: `Binary64.Style`, `Binary64.write`, `Binary64.read?`.
-/
import NestedQuery.Binary64.Shortest
import NestedQuery.Text.Numeral

namespace NestedQuery
namespace Binary64

/-- The choices left when the digits are known. -/
structure Style where
  /-- The least power of ten of a first digit that is written out. -/
  least : Int
  /-- The greatest power of ten of a first digit that is written out. -/
  greatest : Int
  /-- The sign of positive powers of ten. -/
  plus : String
  /-- Which of two shortest decimals is written. -/
  tie : Tie

/-- The text of a decimal. -/
def Style.decimal (style : Style) (d : Decimal) : String :=
  let digits := Nat.toDigits 10 d.digits
  let power : Int := digits.length - 1 + d.exponent
  if d.digits = 0 then "0.0"
  else if style.least ≤ power ∧ power ≤ style.greatest then
    if 0 ≤ d.exponent then
      String.ofList (digits ++ List.replicate d.exponent.toNat '0') ++ ".0"
    else if 0 ≤ power then
      let whole := (power + 1).toNat
      String.ofList (digits.take whole) ++ "." ++ String.ofList (digits.drop whole)
    else "0." ++ String.ofList (List.replicate (-power - 1).toNat '0' ++ digits)
  else
    let fraction := if digits.length = 1 then "" else "." ++ String.ofList (digits.drop 1)
    let sign := if power < 0 then "-" else style.plus
    s!"{String.ofList (digits.take 1)}{fraction}e{sign}{power.natAbs}"

/-- The text of a finite number. -/
def Finite.write (style : Style) (x : Finite) : String :=
  (if x.negative then "-" else "") ++ style.decimal (x.shortest style.tie)

/-- The text of a number. -/
def write (style : Style) : Binary64 → String
  | finite x => x.write style
  | infinity true => "-inf"
  | infinity false => "inf"
  | nan => "NaN"

/-- The digits at the head of a text, and the rest. -/
def digitsOf (cs : List Char) : List Char × List Char :=
  (cs.takeWhile Char.isDigit, cs.dropWhile Char.isDigit)

/-- A sign at the head of a text, and the rest. -/
def signOf : List Char → Bool × List Char
  | '-' :: cs => (true, cs)
  | '+' :: cs => (false, cs)
  | cs => (false, cs)

/-- The power of ten that a text names, if it is one: `e`, a sign and digits. -/
def power? : List Char → Option Int
  | [] => some 0
  | c :: cs =>
    let (negative, digits) := signOf cs
    if (c = 'e' ∨ c = 'E') ∧ digits ≠ [] ∧ digits.all Char.isDigit then
      some (if negative then -(Numeral.value digits : Int) else Numeral.value digits)
    else none

/-- The number nearest to a numeral with an optional fraction and power of ten. -/
def readDecimal? (negative : Bool) (cs : List Char) : Option Binary64 :=
  let (whole, rest) := digitsOf cs
  let (fraction, rest) := match rest with
    | '.' :: rest => digitsOf rest
    | rest => ([], rest)
  if whole = [] ∧ fraction = [] then none
  else
    (power? rest).map fun power =>
      ofDecimal negative (Numeral.value (whole ++ fraction)) (power - fraction.length)

/-- The number that a text says, if it says one. The names of infinity and of what is not a
number may be in either case. -/
def read? (text : String) : Option Binary64 :=
  let (negative, cs) := signOf text.toList
  let name := String.ofList (cs.map Char.toLower)
  if name = "nan" then some nan
  else if name = "inf" ∨ name = "infinity" then some (infinity negative)
  else readDecimal? negative cs

end Binary64
end NestedQuery
