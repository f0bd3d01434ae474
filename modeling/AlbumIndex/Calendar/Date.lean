/-!
# Dates of the Gregorian calendar

The calendar runs unchanged in both directions from year -262143 to year 262142; year 0 is the leap
year before year 1.  A day is counted from 1 January 1970.

## Main definitions

* `isLeap`, `daysInMonth` — the shape of a year.
* `Date` — a day that the calendar has.
* `Date.dayNumber` — the days from 1 January 1970 to a date.
* `civil` — year, month and day of a day number.
* `Date.nextMonth?`, `Date.monthBefore?` — one month on and one month back.
-/

namespace AlbumIndex
namespace Calendar

/-! ### Years and months -/

/-- The first year of the calendar. -/
def minYear : Int := -262143

/-- The last year of the calendar. -/
def maxYear : Int := 262142

/-- Every fourth year is a leap year, but of the full centuries only every fourth. -/
def isLeap (year : Int) : Bool := year % 4 == 0 && (year % 100 != 0 || year % 400 == 0)

def daysInMonth (year : Int) (month : Nat) : Nat :=
  match month with
  | 2 => if isLeap year then 29 else 28
  | 4 | 6 | 9 | 11 => 30
  | _ => 31

/-- The days from 1 January of year 0 to 1 January of a year. -/
def daysBeforeYear (year : Int) : Int :=
  365 * year + (year + 3) / 4 - (year + 99) / 100 + (year + 399) / 400

/-- The days of a year before the first of a month. -/
def daysBeforeMonth (year : Int) : Nat → Nat
  | 0 => 0
  | 1 => 0
  | m + 2 => daysBeforeMonth year (m + 1) + daysInMonth year (m + 1)

/-! ### Dates -/

/-- A day of the calendar. -/
@[ext] structure Date where
  year : Int
  month : Nat
  day : Nat
  year_mem : minYear ≤ year ∧ year ≤ maxYear
  month_mem : 1 ≤ month ∧ month ≤ 12
  day_mem : 1 ≤ day ∧ day ≤ daysInMonth year month
deriving DecidableEq

namespace Date

/-- The day of these numbers, if the calendar has it. -/
def of? (year : Int) (month day : Nat) : Option Date :=
  if hy : minYear ≤ year ∧ year ≤ maxYear then
    if hm : 1 ≤ month ∧ month ≤ 12 then
      if hd : 1 ≤ day ∧ day ≤ daysInMonth year month then
        some ⟨year, month, day, hy, hm, hd⟩
      else none
    else none
  else none

theorem of?_eq_some_iff {year : Int} {month day : Nat} {d : Date} :
    of? year month day = some d ↔ d.year = year ∧ d.month = month ∧ d.day = day := by
  unfold of?
  constructor
  · intro h
    split at h
    · split at h
      · split at h
        · obtain rfl := Option.some.inj h
          exact ⟨rfl, rfl, rfl⟩
        · cases h
      · cases h
    · cases h
  · rintro ⟨rfl, rfl, rfl⟩
    simp [d.year_mem, d.month_mem, d.day_mem]

/-- The days from 1 January 1970 to the date. -/
def dayNumber (d : Date) : Int :=
  daysBeforeYear d.year - daysBeforeYear 1970 + daysBeforeMonth d.year d.month + (d.day - 1)

/-- The first day of a year, if the calendar has that year. -/
def startOfYear? (year : Int) : Option Date := of? year 1 1

/-- The same day of the following month, or that month's last day if it is shorter. -/
def nextMonth? (d : Date) : Option Date :=
  let (year, month) := if d.month = 12 then (d.year + 1, 1) else (d.year, d.month + 1)
  of? year month (min d.day (daysInMonth year month))

/-- The same day of the month before, or that month's last day if it is shorter. -/
def monthBefore? (d : Date) : Option Date :=
  let (year, month) := if d.month = 1 then (d.year - 1, 12) else (d.year, d.month - 1)
  of? year month (min d.day (daysInMonth year month))

end Date

/-! ### From day numbers back to dates -/

/-- The year of the day that lies `days` after 1 January of year 0.  The mean length of a year
gives a guess that is at most one year off. -/
def yearOfDays (days : Int) : Int :=
  let guess := 400 * days / 146097
  if days < daysBeforeYear guess then guess - 1
  else if daysBeforeYear (guess + 1) ≤ days then guess + 1
  else guess

/-- The last of the months up to `month` that begins on or before the given day of the year. -/
def monthOfDay (year : Int) (day : Nat) : Nat → Nat
  | 0 => 1
  | 1 => 1
  | m + 2 => if daysBeforeMonth year (m + 2) ≤ day then m + 2 else monthOfDay year day (m + 1)

/-- Year, month and day of the day that lies `n` days after 1 January 1970. -/
def civil (n : Int) : Int × Nat × Nat :=
  let days := n + daysBeforeYear 1970
  let year := yearOfDays days
  let dayOfYear := (days - daysBeforeYear year).toNat
  let month := monthOfDay year dayOfYear 12
  (year, month, dayOfYear - daysBeforeMonth year month + 1)

/-- The date that lies `n` days after 1 January 1970, if the calendar has it. -/
def Date.ofDayNumber? (n : Int) : Option Date :=
  let (year, month, day) := civil n
  Date.of? year month day

end Calendar
end AlbumIndex
