/-
# The order of dates as texts

Texts are ordered by the first characters that differ. The texts of points
in time have fields of a fixed width, the greatest first, as long as years
have four digits; so the first field that differs decides, and the texts are
in the order of what local clocks show, to the second
(`DateTime.leads_iso`). Where clocks show the same the text goes on with the
offset, and fractions of a second are not shown at all.

The calendar is the one part that needs work. Days are turned into dates by
divisions, and that later days have later dates (`CivilDate.before_ofDays`)
rests on where the years of a cycle of 400 years begin.

Key definitions: `CivilDate.Before`, `Leads`, `DateTime.localSecond`,
`DateTime.Ordinary`.
Key theorems: `CivilDate.before_ofDays`, `leads_padded`,
`DateTime.leads_iso`, `DateTime.localSecond_le_of_iso`,
`DateTime.compare_iso_eq_order`.
-/
import Mathlib.Data.Int.Order.Basic
import Mathlib.Data.String.Basic
import NestedQuery.DateTime

namespace NestedQuery

/-! ### The calendar -/

namespace CivilDate

/-- Earlier by the year, in one year by the month, and in one month by the day. -/
def Before (a b : CivilDate) : Prop :=
  a.year < b.year ∨ a.year = b.year ∧ (a.month < b.month ∨ a.month = b.month ∧ a.day < b.day)

/-- The year, from March on, of a day of the cycle of 400 years. -/
def cycleYear (day : Nat) : Nat := (day - day / 1460 + day / 36524 - day / 146096) / 365

/-- The days of the cycle before one of its years. -/
def daysBefore (year : Nat) : Nat := 365 * year + year / 4 - year / 100

theorem cycleYear_mono : Monotone cycleYear := by
  refine monotone_nat_of_le_succ fun n => ?_
  have hstep : n - n / 1460 + n / 36524 - n / 146096 ≤
      n + 1 - (n + 1) / 1460 + (n + 1) / 36524 - (n + 1) / 146096 := by
    have hfour : (n + 1) / 1460 ≤ n / 1460 + 1 := by omega
    have hcentury : n / 36524 ≤ (n + 1) / 36524 := by omega
    by_cases hlast : (n + 1) % 146096 = 0
    · have hcycle : (n + 1) / 146096 = n / 146096 + 1 := by omega
      have hcentury : (n + 1) / 36524 = n / 36524 + 1 := by omega
      omega
    · have hcycle : (n + 1) / 146096 = n / 146096 := by omega
      omega
  exact Nat.div_le_div_right hstep

/-- The first day of a year is of that year, and the day before is not. -/
theorem cycleYear_daysBefore : ∀ year < 400, year ≤ cycleYear (daysBefore year) ∧
    (year ≠ 0 → cycleYear (daysBefore year - 1) < year) := by
  decide +kernel

theorem cycleYear_lt {day : Nat} (h : day < 146097) : cycleYear day < 400 := by
  have hle : cycleYear day ≤ cycleYear 146096 := cycleYear_mono (by omega)
  have hlast : cycleYear 146096 = 399 := by decide
  omega

theorem daysBefore_le {day : Nat} (h : day < 146097) : daysBefore (cycleYear day) ≤ day := by
  by_contra hlt
  have hzero : cycleYear day ≠ 0 := by
    intro hzero
    rw [hzero] at hlt
    exact hlt (Nat.zero_le day)
  have hle : cycleYear day ≤ cycleYear (daysBefore (cycleYear day) - 1) :=
    cycleYear_mono (by omega)
  have hbefore := (cycleYear_daysBefore _ (cycleYear_lt h)).2 hzero
  omega

theorem lt_daysBefore_add {day : Nat} (h : day < 146097) :
    day < daysBefore (cycleYear day) + 366 := by
  have hyear := cycleYear_lt h
  by_cases hlast : cycleYear day = 399
  · have hdays : daysBefore 399 = 145731 := by decide
    rw [hlast, hdays]
    omega
  · have hnext := (cycleYear_daysBefore (cycleYear day + 1) (by omega)).1
    have hlt : day < daysBefore (cycleYear day + 1) := by
      by_contra hge
      have hle : cycleYear (daysBefore (cycleYear day + 1)) ≤ cycleYear day :=
        cycleYear_mono (by omega)
      omega
    have hlength : daysBefore (cycleYear day + 1) ≤ daysBefore (cycleYear day) + 366 := by
      unfold daysBefore
      omega
    omega

/-- The day of the cycle. -/
def dayOfCycle (days : Int) : Nat := ((days + 719468) % 146097).toNat

/-- The day of the year, from March on. -/
def dayOfYear (days : Int) : Nat :=
  dayOfCycle days - daysBefore (cycleYear (dayOfCycle days))

/-- The month of the year, from March on. -/
def monthOfYear (days : Int) : Nat := (5 * dayOfYear days + 2) / 153

/-- The months from January of the year 0 on. -/
def monthCount (days : Int) : Int :=
  12 * ((cycleYear (dayOfCycle days) : Int) + (days + 719468) / 146097 * 400) +
    monthOfYear days + 2

theorem dayOfCycle_lt (days : Int) : dayOfCycle days < 146097 := by
  unfold dayOfCycle
  omega

theorem dayOfYear_lt (days : Int) : dayOfYear days < 366 := by
  have h := lt_daysBefore_add (dayOfCycle_lt days)
  unfold dayOfYear
  omega

theorem monthOfYear_lt (days : Int) : monthOfYear days < 12 := by
  have h := dayOfYear_lt days
  unfold monthOfYear
  omega

theorem day_ofDays (days : Int) :
    (ofDays days).day = dayOfYear days - (153 * monthOfYear days + 2) / 5 + 1 := rfl

theorem day_lt (days : Int) : (ofDays days).day < 100 := by
  rw [day_ofDays, monthOfYear]
  omega

/-- Months and years are counted by the months. -/
theorem monthCount_eq (days : Int) :
    12 * (ofDays days).year + (ofDays days).month = monthCount days + 1 ∧
      1 ≤ (ofDays days).month ∧ (ofDays days).month ≤ 12 := by
  have hmonth : (ofDays days).month =
      if monthOfYear days < 10 then monthOfYear days + 3 else monthOfYear days - 9 := rfl
  have hyear : (ofDays days).year = if (ofDays days).month ≤ 2
      then (cycleYear (dayOfCycle days) : Int) + (days + 719468) / 146097 * 400 + 1
      else (cycleYear (dayOfCycle days) : Int) + (days + 719468) / 146097 * 400 := rfl
  have hlt := monthOfYear_lt days
  rw [hyear, hmonth, monthCount]
  split_ifs <;> omega

/-- **Later days have later dates.** -/
theorem before_ofDays {a b : Int} (h : a < b) : (ofDays a).Before (ofDays b) := by
  have hcount : monthCount a < monthCount b ∨
      monthCount a = monthCount b ∧ (ofDays a).day < (ofDays b).day := by
    have ha := monthOfYear_lt a
    have hyear := cycleYear_lt (dayOfCycle_lt a)
    unfold monthCount
    by_cases hcycle : (a + 719468) / 146097 < (b + 719468) / 146097
    · omega
    · have hsame : (a + 719468) / 146097 = (b + 719468) / 146097 := by omega
      have hday : dayOfCycle a < dayOfCycle b := by
        unfold dayOfCycle
        omega
      have hle : cycleYear (dayOfCycle a) ≤ cycleYear (dayOfCycle b) := cycleYear_mono hday.le
      rw [hsame]
      by_cases hlt : cycleYear (dayOfCycle a) < cycleYear (dayOfCycle b)
      · omega
      · have heq : cycleYear (dayOfCycle a) = cycleYear (dayOfCycle b) := by omega
        have hbegin := daysBefore_le (dayOfCycle_lt a)
        have hdays : dayOfYear a < dayOfYear b := by
          unfold dayOfYear
          rw [← heq]
          omega
        have hmonths : monthOfYear a ≤ monthOfYear b := by
          unfold monthOfYear
          omega
        rw [heq, day_ofDays, day_ofDays]
        by_cases hmonth : monthOfYear a < monthOfYear b
        · omega
        · have hsame : monthOfYear a = monthOfYear b := by omega
          have hfirst : (153 * monthOfYear a + 2) / 5 ≤ dayOfYear a := by
            unfold monthOfYear
            omega
          rw [← hsame]
          omega
  have ha := monthCount_eq a
  have hb := monthCount_eq b
  unfold Before
  omega

end CivilDate

/-! ### Texts that differ -/

/-- At the first place where the lists differ the character of the first one is less, whatever
comes behind. -/
def Leads (a b : List Char) : Prop :=
  ∃ front c d as bs, a = front ++ c :: as ∧ b = front ++ d :: bs ∧ c < d

namespace Leads

variable {a b : List Char}

theorem append (h : Leads a b) (as bs : List Char) : Leads (a ++ as) (b ++ bs) := by
  obtain ⟨front, c, d, cs, ds, rfl, rfl, hlt⟩ := h
  exact ⟨front, c, d, cs ++ as, ds ++ bs, by simp, by simp, hlt⟩

theorem behind (h : Leads a b) (front : List Char) : Leads (front ++ a) (front ++ b) := by
  obtain ⟨front', c, d, cs, ds, rfl, rfl, hlt⟩ := h
  exact ⟨front ++ front', c, d, cs, ds, by simp, by simp, hlt⟩

theorem cons (h : Leads a b) (c : Char) : Leads (c :: a) (c :: b) := h.behind [c]

theorem compare_eq_lt {s t : String} (h : Leads s.toList t.toList) : compare s t = .lt := by
  obtain ⟨front, c, d, cs, ds, hs, ht, hlt⟩ := h
  refine compareOfLessAndEq_eq_lt.2 (String.lt_iff_toList_lt.2 ?_)
  rw [hs, ht]
  exact List.append_left_lt (List.cons_lt_cons_iff.2 (.inl hlt))

end Leads

/-! ### Fields of a fixed width -/

theorem toList_padded (width n : Nat) :
    (padded width n).toList =
      List.replicate (width - (Nat.toDigits 10 n).length) '0' ++ Nat.toDigits 10 n := by
  simp [padded]

/-- The last digit comes behind the number without it. -/
theorem toList_padded_succ {width : Nat} (hw : 0 < width) (n : Nat) :
    (padded (width + 1) n).toList = (padded width (n / 10)).toList ++ [Nat.digitChar (n % 10)] := by
  rw [toList_padded, toList_padded]
  by_cases hlt : n < 10
  · have hdigits : n / 10 = 0 := by omega
    have hlast : n % 10 = n := by omega
    obtain ⟨w, rfl⟩ : ∃ w, width = w + 1 := ⟨width - 1, by omega⟩
    rw [Nat.toDigits_of_lt_base hlt, hdigits, hlast, Nat.toDigits_zero]
    simp [List.replicate_succ']
  · rw [Nat.toDigits_of_base_le (by decide) (by omega)]
    simp

theorem digitChar_lt {m n : Nat} (h : m < n) (hn : n < 10) : Nat.digitChar m < Nat.digitChar n := by
  have hm := Nat.toNat_digitChar_of_lt_ten (show m < 10 by omega)
  have hn' := Nat.toNat_digitChar_of_lt_ten hn
  rw [Char.lt_def, UInt32.lt_iff_toNat_lt]
  show (Nat.digitChar m).toNat < (Nat.digitChar n).toNat
  omega

/-- Numbers that fit the width are written in their order. -/
theorem leads_padded {width m n : Nat} (hw : 0 < width) (h : m < n) (hn : n < 10 ^ width) :
    Leads (padded width m).toList (padded width n).toList := by
  induction width generalizing m n with
  | zero => omega
  | succ w ih =>
    by_cases hone : w = 0
    · subst hone
      have hn : n < 10 := by simpa using hn
      have hm : m < 10 := by omega
      refine ⟨[], Nat.digitChar m, Nat.digitChar n, [], [], ?_, ?_, digitChar_lt h hn⟩
      · simp [toList_padded, Nat.toDigits_of_lt_base hm]
      · simp [toList_padded, Nat.toDigits_of_lt_base hn]
    · have hpos : 0 < w := Nat.pos_of_ne_zero hone
      have hbound : n / 10 < 10 ^ w := by
        rw [Nat.pow_succ] at hn
        omega
      rw [toList_padded_succ hpos, toList_padded_succ hpos]
      by_cases hfront : m / 10 < n / 10
      · exact (ih hpos hfront hbound).append _ _
      · have hsame : m / 10 = n / 10 := by omega
        have hlast : m % 10 < n % 10 := by omega
        rw [hsame]
        exact ⟨_, _, _, [], [], rfl, rfl, digitChar_lt hlast (Nat.mod_lt _ (by decide))⟩

/-! ### Dates and clocks -/

/-- The characters of a date whose year has four digits. -/
def CivilDate.chars (date : CivilDate) : List Char :=
  (padded 4 date.year.natAbs).toList ++
    '-' :: ((padded 2 date.month).toList ++ '-' :: (padded 2 date.day).toList)

/-- The characters of a clock, by the minutes of the day and the seconds of the minute. -/
def clockChars (minutes second : Nat) : List Char :=
  (padded 2 (minutes / 60)).toList ++
    ':' :: ((padded 2 (minutes % 60)).toList ++ ':' :: (padded 2 second).toList)

theorem CivilDate.Before.leads {a b : CivilDate} (h : a.Before b) (ha : 0 ≤ a.year)
    (hb : b.year ≤ 9999) (hm : b.month ≤ 12) (hd : b.day < 100) : Leads a.chars b.chars := by
  have hbound : b.year < 10000 := by omega
  obtain hyear | ⟨hyear, hmonth | ⟨hmonth, hday⟩⟩ := h
  · have hlt : a.year.natAbs < b.year.natAbs := by omega
    exact (leads_padded (by decide) hlt (by omega)).append _ _
  · have hlt := leads_padded (by decide) hmonth (show b.month < 10 ^ 2 by omega)
    rw [chars, chars, hyear]
    exact ((hlt.append _ _).cons _).behind _
  · have hlt := leads_padded (by decide) hday (show b.day < 10 ^ 2 by omega)
    rw [chars, chars, hyear, hmonth]
    exact (((hlt.cons _).behind _).cons _).behind _

theorem leads_clockChars {m n s t : Nat} (h : m < n ∨ m = n ∧ s < t) (hn : n < 1440)
    (ht : t < 100) :
    Leads (clockChars m s) (clockChars n t) := by
  obtain hlt | ⟨rfl, hsecond⟩ := h
  · unfold clockChars
    by_cases hhour : m / 60 < n / 60
    · exact (leads_padded (by decide) hhour (by omega)).append _ _
    · have hsame : m / 60 = n / 60 := by omega
      have hminute : m % 60 < n % 60 := by omega
      have hleads := leads_padded (by decide) hminute (show n % 60 < 10 ^ 2 by omega)
      rw [hsame]
      exact ((hleads.append _ _).cons _).behind _
  · have hleads := leads_padded (by decide) hsecond (show t < 10 ^ 2 by omega)
    exact (((hleads.cons _).behind _).cons _).behind _

/-! ### Points in time -/

namespace DateTime

/-- The second of the instant; that of a leap second is the one behind it. -/
def wholeSecond (t : DateTime) : Int := t.seconds + (t.nanos / 1000000000 : Nat)

/-- The same second as local clocks count it. -/
def localSecond (t : DateTime) : Int := t.wholeSecond + t.offset

/-- The date on which local clocks show it. -/
def localDate (t : DateTime) : CivilDate := .ofDays ((t.seconds + t.offset) / 86400)

/-- The local year has four digits, and there are no more nanoseconds than in a second and a leap
second behind it. -/
def Ordinary (t : DateTime) : Prop :=
  (0 ≤ t.localDate.year ∧ t.localDate.year ≤ 9999) ∧ t.nanos < 2000000000

instance (t : DateTime) : Decidable t.Ordinary := inferInstanceAs (Decidable (_ ∧ _))

/-- The second of the day that local clocks show, but for leap seconds. -/
def clock (t : DateTime) : Nat := ((t.seconds + t.offset) % 86400).toNat

theorem toList_localText {t : DateTime} (h : t.Ordinary) : t.localText.toList =
    t.localDate.chars ++
      'T' :: clockChars (t.clock / 60) (t.clock % 60 + t.nanos / 1000000000) := by
  have hyear : yearText t.localDate.year = padded 4 t.localDate.year.natAbs := if_pos h.1
  have htext : t.localText =
      yearText t.localDate.year ++ "-" ++ padded 2 t.localDate.month ++ "-" ++
        padded 2 t.localDate.day ++ "T" ++
        (padded 2 (t.clock / 3600) ++ ":" ++ padded 2 (t.clock / 60 % 60) ++ ":" ++
          padded 2 (t.clock % 60 + t.nanos / 1000000000)) := rfl
  have hhours : t.clock / 60 / 60 = t.clock / 3600 := by omega
  rw [htext, hyear, CivilDate.chars, clockChars, hhours]
  simp [String.toList_append]

/-- What local clocks show first comes first. -/
theorem leads_iso {a b : DateTime} (ha : a.Ordinary) (hb : b.Ordinary)
    (h : a.localSecond < b.localSecond) : Leads a.iso.toList b.iso.toList := by
  have hzone : ∀ t : DateTime, ∃ zone, t.iso.toList = t.localText.toList ++ zone := by
    intro t
    have htext : t.iso = t.localText ++ t.sign ++ padded 2 ((t.offset.natAbs + 30) / 60 / 60) ++
        ":" ++ padded 2 ((t.offset.natAbs + 30) / 60 % 60) := rfl
    rw [htext]
    simp only [String.toList_append, List.append_assoc]
    exact ⟨_, rfl⟩
  obtain ⟨zone, hazone⟩ := hzone a
  obtain ⟨zone', hbzone⟩ := hzone b
  rw [hazone, hbzone, toList_localText ha, toList_localText hb]
  refine Leads.append ?_ zone zone'
  have hnanos := ha.2
  have hnanos' := hb.2
  unfold localSecond wholeSecond at h
  by_cases hdate : (a.seconds + a.offset) / 86400 < (b.seconds + b.offset) / 86400
  · have hmonth := (CivilDate.monthCount_eq ((b.seconds + b.offset) / 86400)).2.2
    have hbefore : a.localDate.Before b.localDate := CivilDate.before_ofDays hdate
    exact (hbefore.leads ha.1.1 hb.1.2 hmonth (CivilDate.day_lt _)).append _ _
  · have hdays : (a.seconds + a.offset) / 86400 = (b.seconds + b.offset) / 86400 := by omega
    have hsame : a.localDate = b.localDate := by
      unfold localDate
      rw [hdays]
    have hclock : a.clock / 60 < b.clock / 60 ∨ a.clock / 60 = b.clock / 60 ∧
        a.clock % 60 + a.nanos / 1000000000 < b.clock % 60 + b.nanos / 1000000000 := by
      unfold clock
      omega
    have hminutes : b.clock / 60 < 1440 := by
      unfold clock
      omega
    rw [hsame]
    exact ((leads_clockChars hclock hminutes (by omega)).cons _).behind _

/-- Texts in order show local times in order, and instants in order if the offset is the same. -/
theorem localSecond_le_of_iso {a b : DateTime} (ha : a.Ordinary) (hb : b.Ordinary)
    (h : (compare a.iso b.iso).isLE) : a.localSecond ≤ b.localSecond := by
  by_contra hlt
  have hgt : compare b.iso a.iso = .lt := (leads_iso hb ha (by omega)).compare_eq_lt
  have hswap : compare a.iso b.iso = (compare b.iso a.iso).swap := Std.OrientedOrd.eq_swap
  rw [hswap, hgt] at h
  cases h

theorem wholeSecond_le_of_iso {a b : DateTime} (ha : a.Ordinary) (hb : b.Ordinary)
    (ho : a.offset = b.offset) (h : (compare a.iso b.iso).isLE) :
    a.wholeSecond ≤ b.wholeSecond := by
  have hlocal : a.wholeSecond + a.offset ≤ b.wholeSecond + b.offset :=
    localSecond_le_of_iso ha hb h
  omega

/-- Whole seconds at one offset are in the order of their texts. -/
theorem compare_iso_eq_order {a b : DateTime} (ha : a.Ordinary) (hb : b.Ordinary)
    (ho : a.offset = b.offset) (hna : a.nanos = 0) (hnb : b.nanos = 0) :
    compare a.iso b.iso = a.order b := by
  have hlocal : ∀ {s t : DateTime}, s.offset = t.offset → s.nanos = 0 → t.nanos = 0 →
      s.seconds < t.seconds → s.localSecond < t.localSecond := by
    intro s t ho hs ht hlt
    unfold localSecond wholeSecond
    rw [hs, ht, ho]
    omega
  rcases lt_trichotomy a.seconds b.seconds with hlt | heq | hgt
  · rw [(leads_iso ha hb (hlocal ho hna hnb hlt)).compare_eq_lt, order, Int.compare_eq_lt.2 hlt]
    rfl
  · have hsame : a = b := by
      obtain ⟨seconds, nanos, offset⟩ := a
      obtain ⟨seconds', nanos', offset'⟩ := b
      simp_all
    rw [hsame, order]
    simp
  · have hswap : compare a.iso b.iso = (compare b.iso a.iso).swap := Std.OrientedOrd.eq_swap
    rw [order_swap b a, hswap, (leads_iso hb ha (hlocal ho.symm hnb hna hgt)).compare_eq_lt, order,
      Int.compare_eq_lt.2 hgt]
    rfl

end DateTime
end NestedQuery
