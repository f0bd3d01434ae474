import AlbumIndex.Calendar.Instant
import AlbumIndex.Text.Numeral

/-!
# Instants as texts

The internet form of an instant is `YYYY-MM-DDTHH:MM:SS`, a fraction where there is one, and the
distance from UTC.  A year outside 0 to 9999 carries its sign and has at least four digits; the
fraction has three, six or nine digits, as few as are exact; a leap second is second 60.

## Main definitions

* `Instant.stamp` — the internet form, ended by `Z`.
* `Instant.stampWithOffset` — the same, ended by `+00:00`.
* `Instant.minute` — date, hour and minute, for lists.
-/

namespace AlbumIndex
namespace Calendar

open Text

/-- A year, with its sign if it does not have four digits. -/
def yearText (year : Int) : List Char :=
  if 0 ≤ year ∧ year ≤ 9999 then padded 4 year.toNat
  else (if year < 0 then '-' else '+') :: padded 4 year.natAbs

def dayText (dayNumber : Int) : List Char :=
  let (year, month, day) := civil dayNumber
  yearText year ++ '-' :: padded 2 month ++ '-' :: padded 2 day

/-- A part of a second: nothing if it is zero, else the fewest of 3, 6 or 9 digits that are
exact. -/
def fractionText (nanos : Nat) : List Char :=
  if nanos = 0 then []
  else if nanos % 1000000 = 0 then '.' :: padded 3 (nanos / 1000000)
  else if nanos % 1000 = 0 then '.' :: padded 6 (nanos / 1000)
  else '.' :: padded 9 nanos

namespace Instant

/-- Hours, minutes and seconds of the day of an instant. -/
def clock (t : Instant) : Nat × Nat × Nat :=
  let s := t.dayAndSecond.2.toNat
  (s / 3600, s / 60 % 60, s % 60)

/-- Date and time of day, without the distance from UTC. -/
def stampBody (t : Instant) : List Char :=
  let (hour, minute, second) := t.clock
  let leap := if 1000000000 ≤ t.nanos then 1 else 0
  dayText t.dayAndSecond.1 ++ 'T' :: padded 2 hour ++ ':' :: padded 2 minute ++
    ':' :: padded 2 (second + leap) ++ fractionText (t.nanos - 1000000000 * leap)

/-- The internet form of an instant in UTC. -/
def stamp (t : Instant) : String := String.ofList (t.stampBody ++ ['Z'])

/-- The internet form with the distance from UTC in figures. -/
def stampWithOffset (t : Instant) : String := String.ofList (t.stampBody ++ "+00:00".toList)

/-- Date, hour and minute. -/
def minute (t : Instant) : String :=
  let (hour, minute, _) := t.clock
  String.ofList (dayText t.dayAndSecond.1 ++ ' ' :: padded 2 hour ++ ':' :: padded 2 minute)

end Instant
end Calendar
end AlbumIndex
