/-
# JSON from text

A strict reader: one value with nothing but blanks around it, at most 127
containers inside each other, no control characters and no halves of
surrogate pairs in texts, and no spare zeros or points in numbers. A key that
is written twice in an object keeps its place and its last value.

A number without fraction and power is whole as long as it fits 64 bits, with
the exception of `-0`. For every other number the digits that fit 64 bits are
taken as a whole number, which is rounded to floating point and then
multiplied or divided by the powers of ten that remain; every step rounds. A
number that comes out infinite is refused.

Key definitions: `Json.significand`, `Json.scale?`, `Json.number?`,
`Json.text?`, `Json.value?`, `Json.read?`.
-/
import NestedQuery.Json
import NestedQuery.Text.Numeral

namespace NestedQuery
namespace Json

/-- The text without the blanks at its head. -/
def skipBlanks (cs : List Char) : List Char :=
  cs.dropWhile fun c => c = ' ' ∨ c = '\n' ∨ c = '\t' ∨ c = '\r'

/-! ### Numbers -/

/-- The whole number of a list of digits that go on from `n`, as far as it fits a 64-bit word,
and how many digits are left. -/
def significand (n : Nat) : List Char → Nat × Nat
  | [] => (n, 0)
  | c :: cs =>
    let next := 10 * n + (c.toNat - '0'.toNat)
    if next < wordSize then significand next cs else (n, (c :: cs).length)

/-- The greatest power of ten that is multiplied or divided by in one step. -/
def greatestPower : Int := 308

/-- The number times a power of ten. Beyond the greatest power the number is divided by that one
first; so large a multiple is refused unless the number is zero. -/
def scale? (x : Binary64.Finite) (power : Int) : Option Binary64.Finite :=
  if x.mantissa = 0 then some x
  else if greatestPower < power then none
  else if 0 ≤ power then do
    let ten ← (Binary64.ofDecimal false 1 power).finite?
    (Binary64.mulMagnitude x ten).finite?
  else if -greatestPower ≤ power then do
    let ten ← (Binary64.ofDecimal false 1 (-power)).finite?
    (Binary64.divMagnitude x ten).finite?
  else do
    let ten ← (Binary64.ofDecimal false 1 greatestPower).finite?
    let less ← (Binary64.divMagnitude x ten).finite?
    scale? less (power + greatestPower)
termination_by (-power).toNat
decreasing_by
  unfold greatestPower at *
  omega

/-- A number in parts: its digits before and behind the point, and its power of ten. -/
structure Numeral where
  negative : Bool
  whole : List Char
  fraction : List Char
  power : Int
  /-- Whether it has neither point nor power. -/
  plain : Bool

/-- The value of a number. -/
def Numeral.value? (n : Numeral) : Option Json :=
  let (head, dropped) := significand 0 n.whole
  if n.plain ∧ dropped = 0 ∧ ¬ (n.negative ∧ (head = 0 ∨ Nat.pow 2 63 < head)) then
    some (integer (if n.negative then -(head : Int) else head))
  else do
    let (all, ignored) := significand head n.fraction
    let rounded ← (Binary64.ofInt all).finite?
    let x ← scale? rounded (n.power + dropped - (n.fraction.length - ignored : Nat))
    some (float { x with negative := n.negative })

/-- The digits behind the point of a number, if there is one; at least one must follow it. -/
def fraction? : List Char → Option (List Char × List Char)
  | '.' :: cs =>
    let digits := cs.takeWhile Char.isDigit
    if digits = [] then none else some (digits, cs.dropWhile Char.isDigit)
  | cs => some ([], cs)

/-- The power of ten of a number, if there is one; at least one digit must follow its sign. -/
def power? : List Char → Option (Int × List Char)
  | c :: cs =>
    if c = 'e' ∨ c = 'E' then
      let (negative, cs) := match cs with
        | '-' :: cs => (true, cs)
        | '+' :: cs => (false, cs)
        | cs => (false, cs)
      let digits := cs.takeWhile Char.isDigit
      let n := NestedQuery.Numeral.value digits
      if digits = [] then none
      else some (if negative then -(n : Int) else n, cs.dropWhile Char.isDigit)
    else some (0, c :: cs)
  | [] => some (0, [])

/-- Whether neither a fraction nor a power begins here. -/
def endsWhole (cs : List Char) : Bool := cs.head?.all fun c => c != '.' && c != 'e' && c != 'E'

/-- A number; its digits begin with a zero only if that is the only one. -/
def number? (negative : Bool) (cs : List Char) : Option (Json × List Char) := do
  let whole := cs.takeWhile Char.isDigit
  if whole = [] ∨ (whole.head? = some '0' ∧ whole.length ≠ 1) then none
  let behind := cs.dropWhile Char.isDigit
  let (fraction, rest) ← fraction? behind
  let (power, rest) ← power? rest
  let value ← Numeral.value? ⟨negative, whole, fraction, power, endsWhole behind⟩
  some (value, rest)

/-! ### Texts -/

/-- The value of a hexadecimal digit in either case. -/
def hexDigit? (c : Char) : Option Nat :=
  if c.isDigit then some (c.toNat - '0'.toNat)
  else if 'a' ≤ c ∧ c ≤ 'f' then some (c.toNat - 'a'.toNat + 10)
  else if 'A' ≤ c ∧ c ≤ 'F' then some (c.toNat - 'A'.toNat + 10)
  else none

/-- The number of four hexadecimal digits. -/
def hex? (a b c d : Char) : Option Nat := do
  some (16 * (16 * (16 * (← hexDigit? a) + (← hexDigit? b)) + (← hexDigit? c)) + (← hexDigit? d))

/-- The character that a backslash and this one stand for. -/
def unescape? : Char → Option Char
  | '"' => some '"'
  | '\\' => some '\\'
  | '/' => some '/'
  | 'b' => some '\x08'
  | 'f' => some '\x0c'
  | 'n' => some '\n'
  | 'r' => some '\r'
  | 't' => some '\t'
  | _ => none

/-- The text up to its closing quote. A character beyond 16 bits is escaped as a pair, whose
halves do not stand alone. -/
def text? : List Char → Option (List Char × List Char)
  | [] => none
  | '"' :: cs => some ([], cs)
  | '\\' :: 'u' :: a :: b :: c :: d :: cs => do
    let high ← hex? a b c d
    if 0xDC00 ≤ high ∧ high ≤ 0xDFFF then none
    else if 0xD800 ≤ high ∧ high ≤ 0xDBFF then
      match cs with
      | '\\' :: 'u' :: e :: f :: g :: h :: cs => do
        let low ← hex? e f g h
        if 0xDC00 ≤ low ∧ low ≤ 0xDFFF then do
          let (text, rest) ← text? cs
          some (Char.ofNat (0x10000 + 0x400 * (high - 0xD800) + (low - 0xDC00)) :: text, rest)
        else none
      | _ => none
    else do
      let (text, rest) ← text? cs
      some (Char.ofNat high :: text, rest)
  | '\\' :: e :: cs => do
    let c ← unescape? e
    let (text, rest) ← text? cs
    some (c :: text, rest)
  | c :: cs =>
    if c = '\\' ∨ c.toNat < 0x20 then none
    else do
      let (text, rest) ← text? cs
      some (c :: text, rest)

/-! ### Values -/

/-- Items separated by commas up to the closing character. The number bounds how many there
are. -/
def items? {α : Type} (closing : Char) (item : List Char → Option (α × List Char)) :
    Nat → List Char → Option (List α × List Char)
  | 0, _ => none
  | bound + 1, cs => do
    let (first, rest) ← item cs
    match skipBlanks rest with
    | c :: rest =>
      if c = closing then some ([first], rest)
      else if c = ',' then do
        let (more, rest) ← items? closing item bound rest
        some (first :: more, rest)
      else none
    | [] => none

/-- No or some items up to the closing character. Each has a character at least, so there are no
more of them than the text has characters, which `size` bounds. -/
def container? {α : Type} (size : Nat) (closing : Char) (item : List Char → Option (α × List Char))
    (cs : List Char) : Option (List α × List Char) :=
  match skipBlanks cs with
  | c :: rest => if c = closing then some ([], rest) else items? closing item size cs
  | [] => none

/-- A key, a colon and a value. -/
def member? (value : List Char → Option (Json × List Char)) (cs : List Char) :
    Option ((String × Json) × List Char) :=
  match skipBlanks cs with
  | '"' :: rest => do
    let (key, rest) ← text? rest
    match skipBlanks rest with
    | ':' :: rest => do
      let (value, rest) ← value rest
      some ((String.ofList key, value), rest)
    | _ => none
  | _ => none

/-- A value that has at most `depth` containers inside each other, in a text of at most `size`
characters. -/
def value? (size depth : Nat) (cs : List Char) : Option (Json × List Char) :=
  match skipBlanks cs with
  | 'n' :: 'u' :: 'l' :: 'l' :: rest => some (null, rest)
  | 't' :: 'r' :: 'u' :: 'e' :: rest => some (boolean true, rest)
  | 'f' :: 'a' :: 'l' :: 's' :: 'e' :: rest => some (boolean false, rest)
  | '"' :: rest => (text? rest).map fun r => (string (String.ofList r.1), r.2)
  | '-' :: rest => number? true rest
  | '[' :: rest =>
    match depth with
    | 0 => none
    | depth + 1 => (container? size ']' (value? size depth) rest).map fun r => (array r.1, r.2)
  | '\x7b' :: rest =>
    match depth with
    | 0 => none
    | depth + 1 =>
      (container? size '\x7d' (member? (value? size depth)) rest).map fun r =>
        (object (Entries.ofPairs r.1), r.2)
  | rest => number? false rest

/-- The most containers that may lie inside each other. -/
def greatestDepth : Nat := 127

/-- The value that a text says, if it says exactly one. -/
def read? (text : String) : Option Json := do
  let (value, rest) ← value? text.length greatestDepth text.toList
  if skipBlanks rest = [] then some value else none

end Json
end NestedQuery
