/-
# Points in time

A point in time is counted in seconds and nanoseconds from the start of 1970
in universal time; the offset is only a matter of how it is shown. So two
points in time are compared by their instants. Local dates follow the
calendar of 400-year cycles, backwards without end.

Key definitions: `DateTime`, `DateTime.order`, `CivilDate.ofDays`,
`DateTime.iso`, `DateTime.display`.
Key theorem: `DateTime.order_swap`.
-/
namespace NestedQuery

/-- A point in time, shown at an offset from universal time. -/
structure DateTime where
  /-- Whole seconds since the start of 1970. -/
  seconds : Int
  /-- Nanoseconds of the second; a billion and more are those of a leap second behind it. -/
  nanos : Nat
  /-- Seconds by which local time is ahead. -/
  offset : Int
  deriving DecidableEq

namespace DateTime

/-- The order of the instants. -/
def order (a b : DateTime) : Ordering :=
  (compare a.seconds b.seconds).then (compare a.nanos b.nanos)

theorem order_swap (a b : DateTime) : b.order a = (a.order b).swap := by
  have h1 : compare b.seconds a.seconds = (compare a.seconds b.seconds).swap :=
    Std.OrientedCmp.eq_swap
  have h2 : compare b.nanos a.nanos = (compare a.nanos b.nanos).swap := Std.OrientedCmp.eq_swap
  rw [order, order, h1, h2]
  cases compare a.seconds b.seconds <;> rfl

end DateTime

/-- A day of the calendar. -/
structure CivilDate where
  year : Int
  month : Nat
  day : Nat
  deriving DecidableEq

/-- The day that comes this many days after the first day of 1970. Years are counted from March
here, so that a leap day is the last day of its year. -/
def CivilDate.ofDays (days : Int) : CivilDate :=
  let shifted := days + 719468
  let cycle := shifted / 146097
  let dayOfCycle := (shifted % 146097).toNat
  let yearOfCycle :=
    (dayOfCycle - dayOfCycle / 1460 + dayOfCycle / 36524 - dayOfCycle / 146096) / 365
  let dayOfYear := dayOfCycle - (365 * yearOfCycle + yearOfCycle / 4 - yearOfCycle / 100)
  let monthFromMarch := (5 * dayOfYear + 2) / 153
  let day := dayOfYear - (153 * monthFromMarch + 2) / 5 + 1
  let month := if monthFromMarch < 10 then monthFromMarch + 3 else monthFromMarch - 9
  let year := (yearOfCycle : Int) + cycle * 400
  ⟨if month ≤ 2 then year + 1 else year, month, day⟩

/-- The number in decimal, with zeros in front up to this width. -/
def padded (width n : Nat) : String :=
  let digits := Nat.toDigits 10 n
  String.ofList (List.replicate (width - digits.length) '0' ++ digits)

/-- A year: four digits from 0 to 9999, and with a sign otherwise. -/
def yearText (year : Int) : String :=
  if 0 ≤ year ∧ year ≤ 9999 then padded 4 year.natAbs
  else (if year < 0 then "-" else "+") ++ padded 4 year.natAbs

namespace DateTime

/-- Local date and time, down to the second. -/
def localText (t : DateTime) : String :=
  let seconds := t.seconds + t.offset
  let date := CivilDate.ofDays (seconds / 86400)
  let clock := (seconds % 86400).toNat
  let second := clock % 60 + t.nanos / 1000000000
  s!"{yearText date.year}-{padded 2 date.month}-{padded 2 date.day}T" ++
    s!"{padded 2 (clock / 3600)}:{padded 2 (clock / 60 % 60)}:{padded 2 second}"

/-- The sign of the offset. -/
def sign (t : DateTime) : String := if t.offset < 0 then "-" else "+"

/-- The form of ISO 8601: no fraction of a second, and an offset in minutes, the nearest ones. -/
def iso (t : DateTime) : String :=
  let minutes := (t.offset.natAbs + 30) / 60
  s!"{t.localText}{t.sign}{padded 2 (minutes / 60)}:{padded 2 (minutes % 60)}"

/-- The nanoseconds behind the point, in groups of three digits as far as needed. -/
def fraction (t : DateTime) : String :=
  let nanos := t.nanos % 1000000000
  if nanos = 0 then ""
  else if nanos % 1000000 = 0 then "." ++ padded 3 (nanos / 1000000)
  else if nanos % 1000 = 0 then "." ++ padded 6 (nanos / 1000)
  else "." ++ padded 9 nanos

/-- The form that loses nothing: all of the fraction and the seconds of the offset. -/
def display (t : DateTime) : String :=
  let offset := t.offset.natAbs
  let seconds := if offset % 60 = 0 then "" else ":" ++ padded 2 (offset % 60)
  s!"{t.localText}{t.fraction}{t.sign}{padded 2 (offset / 3600)}:" ++
    s!"{padded 2 (offset / 60 % 60)}{seconds}"

end DateTime
end NestedQuery
