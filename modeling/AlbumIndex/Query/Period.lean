import AlbumIndex.Calendar.Instant
import AlbumIndex.Calendar.Reading

/-!
# Periods named by a token

A token can name a year, a range of years, a month or a day.  The period is read at a fixed offset
from UTC and runs from the first local midnight up to, but not including, the midnight after its
last day.  A token that names no date of the calendar, or one whose midnights lie outside it, names
no period.

## Main definitions

* `yearPeriod?`, `yearRangePeriod?`, `monthPeriod?` — the period of such a token.
* `dayPeriod` — the period of a day, which may end outside the calendar.
-/

namespace AlbumIndex
namespace Query

open Calendar Text

/-- A year as a number of 32 bits. -/
def readYear? (token : List Char) : Option Int := readInt? (-2147483648) 2147483647 token

/-- The local midnight at which a year begins. -/
def yearStart? (offset : Offset) (year : Int) : Option Instant :=
  (Date.startOfYear? year).bind offset.midnight?

/-- The local midnights at which two years begin. -/
def yearsBetween? (offset : Offset) (first next : Int) : Option Span := do
  let start ← yearStart? offset first
  let stop ← yearStart? offset next
  return ⟨start, stop⟩

/-- `YYYY`: from the beginning of the year to that of the next. -/
def yearPeriod? (offset : Offset) (token : String) : Option Span := do
  let year ← readYear? token.toList
  yearsBetween? offset year (year + 1)

/-- `YYYY--YYYY`: from the beginning of the first year to that of the second. -/
def yearRangePeriod? (offset : Offset) (token : String) : Option Span := do
  let (first, next) ← cutAt? ['-', '-'] token.toList
  let first ← readYear? first
  let next ← readYear? next
  yearsBetween? offset first next

/-- `YYYY-MM`: from the first of the month to the first of the next. -/
def monthPeriod? (offset : Offset) (token : String) : Option Span := do
  let first ← readDate? isoPattern (token.toList ++ "-01".toList)
  let next ← first.nextMonth?
  let start ← offset.midnight? first
  let stop ← offset.midnight? next
  return ⟨start, stop⟩

/-- `YYYY-MM-DD`: the day from its midnight on.  The last day of the calendar ends outside of it,
unless local time is ahead of UTC. -/
def dayPeriod (offset : Offset) (token : String) : Except OutOfRange (Option Span) :=
  match (readDate? isoPattern token.toList).bind offset.midnight? with
  | none => .ok none
  | some start => (start.addSeconds Instant.secondsPerDay).map fun stop => some ⟨start, stop⟩

end Query
end AlbumIndex
